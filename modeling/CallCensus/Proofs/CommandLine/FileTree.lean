import CallCensus.CommandLine.FileTree
import CallCensus.Proofs.Results

namespace CallCensus.FileTree

theorem lookup_filter_ne {place other : List String} (hne : other ≠ place)
    (nodes : List (List String × FileNode)) :
    (nodes.filter (·.1 ≠ place)).lookup other = nodes.lookup other := by
  induction nodes with
  | nil => rfl
  | cons node nodes ih =>
      obtain ⟨name, node⟩ := node
      by_cases hname : name = place
      · subst hname
        rw [List.filter_cons_of_neg (by simp), ih, List.lookup_cons, beq_false_of_ne hne]
      · rw [List.filter_cons_of_pos (by simp [hname]), List.lookup_cons, List.lookup_cons, ih]

section Put

variable {tree : FileTree} {place : List String}

theorem node?_put_self (hplace : place ≠ []) (node : FileNode) :
    (tree.put place node).node? place = some node := by
  rw [node?, if_neg hplace, put, List.lookup_cons, beq_self_eq_true]

-- Nothing else changes where something is put.
theorem node?_put_of_ne {other : List String} (hne : other ≠ place) (node : FileNode) :
    (tree.put place node).node? other = tree.node? other := by
  rw [node?, node?, put, List.lookup_cons, beq_false_of_ne hne, lookup_filter_ne hne]

theorem ne_nil_of_node? (hplace : tree.node? place ≠ some .directory) : place ≠ [] := by
  rintro rfl
  exact hplace rfl

end Put

-- Two trees with the same directories. What is in their files may differ, and which files there are.
def SameDirectories (tree other : FileTree) : Prop :=
  ∀ place, tree.node? place = some .directory ↔ other.node? place = some .directory

theorem sameDirectories_put {tree : FileTree} {place : List String}
    (hplace : tree.node? place ≠ some .directory) (bytes : List UInt8) :
    SameDirectories (tree.put place (.file bytes)) tree := by
  intro other
  by_cases hother : other = place
  · subst hother
    rw [node?_put_self (ne_nil_of_node? hplace)]
    simp [hplace]
  · rw [node?_put_of_ne hother]

theorem enter_eq_ok_iff {tree : FileTree} {place : List String} :
    tree.enter place = .ok () ↔ tree.node? place = some .directory := by
  unfold enter
  split <;> simp_all

section Paths

variable {tree other : FileTree} {path : String} {place : List String}

-- A path leads to a place whether there is a file or not.
def LeadsTo (tree : FileTree) (path : String) (place : List String) : Prop :=
  checkPath path = .ok () ∧ tree.follow (startOf path) (namesOf path) = .ok place

theorem follow_cons_eq_ok_iff {start names found : List String} {name : String} :
    tree.follow start (name :: names) = .ok found ↔ tree.node? start = some .directory ∧
      (if name = "" ∨ name = "." then tree.follow start names
        else if name = ".." then tree.follow start.dropLast names
        else do tree.follow (← within start name) names) = .ok found := by
  rw [follow, Results.seq_eq_ok_iff, enter_eq_ok_iff]

theorem follow_congr (h : SameDirectories tree other) {start names found : List String} :
    tree.follow start names = .ok found ↔ other.follow start names = .ok found := by
  induction names generalizing start with
  | nil => rfl
  | cons name names ih =>
      rw [follow_cons_eq_ok_iff, follow_cons_eq_ok_iff, h start]
      by_cases hstay : name = "" ∨ name = "."
      · simp only [if_pos hstay, ih]
      · by_cases hup : name = ".."
        · simp only [if_neg hstay, if_pos hup, ih]
        · simp only [if_neg hstay, if_neg hup, Results.bind_eq_ok_iff, ih]

theorem leadsTo_congr (h : SameDirectories tree other) :
    tree.LeadsTo path place ↔ other.LeadsTo path place := by
  rw [LeadsTo, LeadsTo, follow_congr h]

theorem follow_append_eq_ok_iff {start front back found : List String} :
    tree.follow start (front ++ back) = .ok found ↔
      ∃ middle, tree.follow start front = .ok middle ∧ tree.follow middle back = .ok found := by
  induction front generalizing start with
  | nil => simp [follow]
  | cons name front ih =>
      simp only [List.cons_append, follow_cons_eq_ok_iff, and_assoc, exists_and_left]
      apply and_congr_right
      intro _
      by_cases hstay : name = "" ∨ name = "."
      · simp only [if_pos hstay, ih]
      · by_cases hup : name = ".."
        · simp only [if_neg hstay, if_pos hup, ih]
        · simp only [if_neg hstay, if_neg hup, Results.bind_eq_ok_iff, ih]
          constructor
          · rintro ⟨next, hnext, middle, hmiddle, hfound⟩
            exact ⟨middle, ⟨next, hnext, hmiddle⟩, hfound⟩
          · rintro ⟨middle, ⟨next, hnext, hmiddle⟩, hfound⟩
            exact ⟨next, hnext, middle, hmiddle, hfound⟩

theorem find_eq_ok_iff {node : FileNode} :
    tree.find path = .ok node ↔ ∃ place, tree.LeadsTo path place ∧ tree.node? place = some node := by
  rw [find, Results.seq_eq_ok_iff, Results.bind_eq_ok_iff]
  constructor
  · rintro ⟨hcheck, place, hfollow, hnode⟩
    split at hnode
    · rename_i found hfound
      exact ⟨place, ⟨hcheck, hfollow⟩, by rw [hfound, Except.ok.inj hnode]⟩
    · cases hnode
  · rintro ⟨place, ⟨hcheck, hfollow⟩, hnode⟩
    exact ⟨hcheck, place, hfollow, by rw [hnode]⟩

-- Where a path leads to the place that something is put at, it finds that.
theorem find_put_of_leadsTo (hplace : tree.node? place ≠ some .directory) {bytes : List UInt8}
    (hleads : tree.LeadsTo path place) :
    (tree.put place (.file bytes)).find path = .ok (.file bytes) := by
  rw [find_eq_ok_iff]
  exact ⟨place, (leadsTo_congr (sameDirectories_put hplace bytes)).mpr hleads,
    node?_put_self (ne_nil_of_node? hplace) _⟩

-- Where it leads to another place, what it finds stays the same.
theorem find_put_of_apart (hplace : tree.node? place ≠ some .directory) {bytes : List UInt8}
    (hapart : ¬ tree.LeadsTo path place) {node : FileNode} :
    (tree.put place (.file bytes)).find path = .ok node ↔ tree.find path = .ok node := by
  have hleads (found : List String) :
      (tree.put place (.file bytes)).LeadsTo path found ↔ tree.LeadsTo path found :=
    leadsTo_congr (sameDirectories_put hplace bytes)
  simp only [find_eq_ok_iff, hleads]
  constructor
  · rintro ⟨found, hfound, hnode⟩
    have hne : found ≠ place := fun heq => hapart (heq ▸ hfound)
    exact ⟨found, hfound, by rwa [node?_put_of_ne hne] at hnode⟩
  · rintro ⟨found, hfound, hnode⟩
    have hne : found ≠ place := fun heq => hapart (heq ▸ hfound)
    exact ⟨found, hfound, by rwa [node?_put_of_ne hne]⟩

theorem placeFor_eq_ok_iff : tree.placeFor path = .ok place ↔
    checkPath path = .ok () ∧ ∃ parent name,
      tree.follow (startOf path) (trimmed (namesOf path)).dropLast = .ok parent ∧
      tree.node? parent = some .directory ∧ (namesOf path).getLast? = some name ∧
      (name ≠ "" ∧ name ≠ "." ∧ name ≠ "..") ∧ within parent name = .ok place ∧
      tree.node? place ≠ some .directory := by
  rw [placeFor, Results.seq_eq_ok_iff]
  apply and_congr_right
  intro _
  rw [Results.bind_eq_ok_iff]
  constructor
  · rintro ⟨parent, hparent, h⟩
    obtain ⟨hdirectory, h⟩ := Results.seq_eq_ok_iff.mp h
    rw [enter_eq_ok_iff] at hdirectory
    split at h
    · cases h
    · cases h
    · cases h
    · cases h
    · rename_i name hempty hdot hdots hname
      obtain ⟨found, hfound, h⟩ := Results.bind_eq_ok_iff.mp h
      split at h
      · cases h
      · rename_i hfree
        obtain rfl := Except.ok.inj h
        exact ⟨parent, name, hparent, hdirectory, hname, ⟨hempty, hdot, hdots⟩, hfound, hfree⟩
  · rintro ⟨parent, name, hparent, hdirectory, hname, ⟨hempty, hdot, hdots⟩, hfound, hfree⟩
    refine ⟨parent, hparent, Results.seq_eq_ok_iff.mpr ⟨enter_eq_ok_iff.mpr hdirectory, ?_⟩⟩
    rw [hname]
    split
    · contradiction
    · exact absurd (Option.some.inj ‹_›) hempty
    · exact absurd (Option.some.inj ‹_›) hdot
    · exact absurd (Option.some.inj ‹_›) hdots
    · rename_i last _ _ _ hlast
      obtain rfl := Option.some.inj hlast
      exact Results.bind_eq_ok_iff.mpr ⟨place, hfound, if_neg hfree⟩

theorem trimmed_of_getLast? {names : List String} {name : String} (hlast : names.getLast? = some name)
    (hname : name ≠ "") : trimmed names = names := by
  obtain ⟨front, rfl⟩ := List.getLast?_eq_some_iff.mp hlast
  rw [trimmed, List.reverse_append, List.reverse_singleton, List.singleton_append,
    List.dropWhile_cons_of_neg (by simp [hname])]
  simp

-- The place of a file that can be made is no directory, and the path of the file leads there.
theorem leadsTo_of_placeFor (h : tree.placeFor path = .ok place) :
    tree.LeadsTo path place ∧ tree.node? place ≠ some .directory := by
  obtain ⟨hcheck, parent, name, hparent, hdirectory, hlast, ⟨hempty, hdot, hdots⟩, hplace, hfree⟩ :=
    placeFor_eq_ok_iff.mp h
  rw [trimmed_of_getLast? hlast hempty] at hparent
  obtain ⟨front, hnames⟩ := List.getLast?_eq_some_iff.mp hlast
  rw [hnames, List.dropLast_concat] at hparent
  refine ⟨⟨hcheck, ?_⟩, hfree⟩
  rw [hnames, follow_append_eq_ok_iff]
  refine ⟨parent, hparent, follow_cons_eq_ok_iff.mpr ⟨hdirectory, ?_⟩⟩
  rw [if_neg (not_or.mpr ⟨hempty, hdot⟩), if_neg hdots]
  exact Results.bind_eq_ok_iff.mpr ⟨place, hplace, rfl⟩

end Paths

section Archives

variable {Error : Type} {unpacker : Archive.Unpacker Error} {tree : FileTree} {path : String}

theorem present_iff :
    (tree.sourceBy unpacker).present path = true ↔ ∃ node, tree.find path = .ok node := by
  cases hfind : tree.find path <;> simp [sourceBy, hfind, Except.isOk, Except.toBool]

theorem list_of_find {node : FileNode} (h : tree.find path = .ok node) :
    (tree.sourceBy unpacker).list path = listNode unpacker path node := by
  simp only [sourceBy, h]

end Archives

end CallCensus.FileTree
