import Mathlib
import MicroC.Files.Tree

/-!
What the operations on a tree do. Each one finds a key for its path and looks at
the entry there, and at most that entry is changed. Paths lead through
directories only, so they keep their keys as long as the directories stay.
-/

namespace MicroC.FileTree

/-! ### Entries -/

theorem lookup_map_entry (entries : List (List String × Entry)) (path key : List String)
    (entry : Entry) :
    (entries.map fun (k, old) => if k = path then (k, entry) else (k, old)).lookup key =
      if key = path then (entries.lookup key).map fun _ => entry else entries.lookup key := by
  induction entries with
  | nil => simp
  | cons e entries ih =>
      obtain ⟨k, old⟩ := e
      by_cases hk : key = k
      · subst hk
        by_cases hpath : key = path <;> simp [hpath]
      · have hne : (key == k) = false := beq_eq_false_iff_ne.mpr hk
        have hfirst : (if k = path then (k, entry) else (k, old)).1 = k := by split <;> rfl
        rw [List.map_cons, List.lookup_cons, List.lookup_cons, hfirst, hne]
        exact ih

theorem find?_nil (t : FileTree) : t.find? [] = some .directory := rfl

theorem find?_of_ne_nil {key : List String} (h : key ≠ []) (t : FileTree) :
    t.find? key = t.entries.lookup key := by
  rw [find?, if_neg (by simpa using h)]

theorem find?_put {path : List String} (hpath : path ≠ []) (t : FileTree) (entry : Entry)
    (key : List String) :
    (t.put path entry).find? key = if key = path then some entry else t.find? key := by
  by_cases hkey : key = []
  · rw [hkey, find?_nil, find?_nil, if_neg hpath.symm]
  rw [find?_of_ne_nil hkey, find?_of_ne_nil hkey, put]
  cases hold : t.entries.lookup path with
  | some old =>
      rw [Option.isSome_some, if_pos rfl, lookup_map_entry]
      refine if_ctx_congr Iff.rfl (fun hsame => ?_) fun _ => rfl
      rw [hsame, hold, Option.map_some]
  | none =>
      rw [Option.isSome_none, if_neg Bool.false_ne_true, List.lookup_append]
      by_cases hsame : key = path
      · simp [hsame, hold]
      · have hne : (key == path) = false := beq_eq_false_iff_ne.mpr hsame
        simp [List.lookup_cons, hne, hsame]

theorem find?_erase {path : List String} (hpath : path ≠ []) (t : FileTree) (key : List String) :
    (t.erase path).find? key = if key = path then none else t.find? key := by
  by_cases hkey : key = []
  · rw [hkey, find?_nil, find?_nil, if_neg hpath.symm]
  rw [find?_of_ne_nil hkey, find?_of_ne_nil hkey, erase]
  induction t.entries with
  | nil => simp
  | cons e entries ih =>
      obtain ⟨k, old⟩ := e
      by_cases hk : k = path
      · rw [List.filter_cons_of_neg (by simpa using hk), ih, hk]
        refine if_ctx_congr Iff.rfl (fun _ => rfl) fun hne => ?_
        rw [List.lookup_cons, beq_eq_false_iff_ne.mpr hne]
      · rw [List.filter_cons_of_pos (by simpa using hk), List.lookup_cons, List.lookup_cons, ih]
        by_cases hsame : key = k
        · simp [hsame, hk]
        · rw [beq_eq_false_iff_ne.mpr hsame]

theorem workingDirectory_put (t : FileTree) (path : List String) (entry : Entry) :
    (t.put path entry).workingDirectory = t.workingDirectory := by
  unfold put
  split <;> rfl

/-! ### Paths -/

/-- The key of the entry that a path names. A path that ends in a slash or in
dots names no entry. -/
def Locates (t : FileTree) (path : String) (key : List String) : Prop :=
  ∃ directory name, t.resolve path = .ok (.name directory name false) ∧
    name.utf8ByteSize ≤ nameLimit ∧ key = directory ++ [name]

/-- Paths that a file can be written to. -/
def Writable (t : FileTree) (path : String) : Prop :=
  ∃ key, t.Locates path key ∧ t.find? key ≠ some .directory

theorem Locates.unique {t : FileTree} {path : String} {key key' : List String}
    (h : t.Locates path key) (h' : t.Locates path key') : key = key' := by
  obtain ⟨directory, name, hresolve, -, rfl⟩ := h
  obtain ⟨directory', name', hresolve', -, rfl⟩ := h'
  rw [hresolve] at hresolve'
  cases hresolve'
  rfl

theorem Locates.ne_nil {t : FileTree} {path : String} {key : List String}
    (h : t.Locates path key) : key ≠ [] := by
  obtain ⟨directory, name, -, -, rfl⟩ := h
  simp

/-- The same directories, and the same one to begin from. -/
structure Alike (t t' : FileTree) : Prop where
  workingDirectory : t.workingDirectory = t'.workingDirectory
  directories : ∀ key, t.find? key = some .directory ↔ t'.find? key = some .directory

theorem Alike.refl (t : FileTree) : t.Alike t := ⟨rfl, fun _ => Iff.rfl⟩

theorem Alike.symm {t t' : FileTree} (h : t.Alike t') : t'.Alike t :=
  ⟨h.workingDirectory.symm, fun key => (h.directories key).symm⟩

theorem alike_put {t : FileTree} {path : List String} {content : ByteArray} (hpath : path ≠ [])
    (h : t.find? path ≠ some .directory) : t.Alike (t.put path (.file content)) := by
  refine ⟨(workingDirectory_put t path _).symm, fun key => ?_⟩
  rw [find?_put hpath]
  split
  · rename_i hkey
    simp [hkey, h]
  · rfl

theorem alike_erase {t : FileTree} {path : List String} (hpath : path ≠ [])
    (h : t.find? path ≠ some .directory) : t.Alike (t.erase path) := by
  refine ⟨rfl, fun key => ?_⟩
  rw [find?_erase hpath]
  split
  · rename_i hkey
    simp [hkey, h]
  · rfl

theorem lookup_of_le {name : String} (h : name.utf8ByteSize ≤ nameLimit) (t : FileTree)
    (directory : List String) :
    t.lookup directory name = .ok (t.find? (directory ++ [name])) :=
  if_neg (Nat.not_lt_of_le h)

theorem lookup_of_lt {name : String} (h : ¬name.utf8ByteSize ≤ nameLimit) (t : FileTree)
    (directory : List String) : t.lookup directory name = .error .nameTooLong :=
  if_pos (Nat.lt_of_not_le h)

/-- A name leads to a directory of that name. -/
theorem enter_eq_ok {t : FileTree} {start directory : List String} {name : String}
    (hdot : name ≠ ".") (hdots : name ≠ "..") :
    t.enter start name = .ok directory ↔
      name.utf8ByteSize ≤ nameLimit ∧ t.find? (start ++ [name]) = some .directory ∧
        directory = start ++ [name] := by
  rw [enter.eq_3 t start name hdot hdots]
  by_cases hsize : name.utf8ByteSize ≤ nameLimit
  · rw [lookup_of_le hsize]
    rcases hfind : t.find? (start ++ [name]) with _ | _ | _ <;>
      simp [bind, Except.bind, throw, throwThe, MonadExceptOf.throw, hsize, pure, Except.pure,
        eq_comm]
  · simp [lookup_of_lt hsize, hsize, bind, Except.bind]

theorem enter_of_alike {t t' : FileTree} (h : t.Alike t') {start directory : List String}
    {name : String} (henter : t.enter start name = .ok directory) :
    t'.enter start name = .ok directory := by
  by_cases hdot : name = "."
  · subst hdot
    exact henter
  by_cases hdots : name = ".."
  · subst hdots
    exact henter
  obtain ⟨hsize, hfind, hdirectory⟩ := (enter_eq_ok hdot hdots).mp henter
  exact (enter_eq_ok hdot hdots).mpr ⟨hsize, (h.directories _).mp hfind, hdirectory⟩

theorem foldlM_enter_of_alike {t t' : FileTree} (h : t.Alike t') {names : List String}
    {start directory : List String} (hfold : names.foldlM t.enter start = .ok directory) :
    names.foldlM t'.enter start = .ok directory := by
  induction names generalizing start with
  | nil => exact hfold
  | cons name names ih =>
      rw [List.foldlM_cons] at hfold ⊢
      cases henter : t.enter start name with
      | error error => simp [henter, bind, Except.bind] at hfold
      | ok next =>
          rw [henter] at hfold
          rw [enter_of_alike h henter]
          exact ih hfold

/-- A path that names something leads through its other names first. -/
theorem resolve_eq_name {t : FileTree} {path name : String} {directory : List String}
    {slash : Bool} :
    t.resolve path = .ok (.name directory name slash) ↔
      path ≠ "" ∧ '\x00' ∉ path.toList ∧ path.utf8ByteSize ≤ pathLimit ∧
        slash = decide (path.toList.getLast? = some '/') ∧
        ∃ before, names path = before ++ [name] ∧ name ≠ "." ∧ name ≠ ".." ∧
          (t.origin path ++ before).foldlM t.enter [] = .ok directory := by
  rw [resolve]
  by_cases hempty : path = ""
  · simp [hempty]
  by_cases hnull : '\x00' ∈ path.toList
  · simp [hempty, hnull]
  by_cases hlong : path.utf8ByteSize ≤ pathLimit
  · rw [if_neg (by simpa using hempty), if_neg (by simpa using hnull), if_neg (by omega)]
    rcases List.eq_nil_or_concat (names path) with hnames | ⟨before, last, hnames⟩
    · simp [hnames]
    · rw [List.concat_eq_append] at hnames
      simp only [hnames, List.reverse_append, List.reverse_singleton, List.singleton_append,
        List.reverse_reverse, bind, Except.bind]
      have hlast : (∃ before', before ++ [last] = before' ++ [name] ∧ name ≠ "." ∧ name ≠ ".." ∧
          (t.origin path ++ before').foldlM t.enter [] = .ok directory) ↔
          last = name ∧ name ≠ "." ∧ name ≠ ".." ∧
            (t.origin path ++ before).foldlM t.enter [] = .ok directory := by
        simp only [← List.concat_eq_append, List.concat_inj, and_assoc]
        constructor
        · rintro ⟨_, rfl, h⟩
          exact h
        · exact fun h => ⟨before, rfl, h⟩
      rw [hlast]
      cases (t.origin path ++ before).foldlM t.enter [] with
      | error error => simp
      | ok found =>
          by_cases hdots : last = "." ∨ last = ".."
          · simp only [hdots, if_true, pure, Except.pure]
            grind
          · simp only [hdots, if_false, pure, Except.pure]
            grind
  · have hlt : path.utf8ByteSize > pathLimit := by omega
    simp [hempty, hnull, hlt, hlong]

theorem Alike.origin {t t' : FileTree} (h : t.Alike t') (path : String) :
    t'.origin path = t.origin path := by
  rw [FileTree.origin, FileTree.origin, h.workingDirectory]

theorem Locates.of_alike {t t' : FileTree} (h : t.Alike t') {path : String} {key : List String}
    (hlocates : t.Locates path key) : t'.Locates path key := by
  obtain ⟨directory, name, hresolve, hsize, hkey⟩ := hlocates
  obtain ⟨hempty, hnull, hlong, hslash, before, hnames, hdot, hdots, hfold⟩ :=
    resolve_eq_name.mp hresolve
  refine ⟨directory, name, resolve_eq_name.mpr ?_, hsize, hkey⟩
  refine ⟨hempty, hnull, hlong, hslash, before, hnames, hdot, hdots, ?_⟩
  rw [h.origin]
  exact foldlM_enter_of_alike h hfold

theorem Alike.locates_iff {t t' : FileTree} (h : t.Alike t') {path : String} {key : List String} :
    t'.Locates path key ↔ t.Locates path key := ⟨.of_alike h.symm, .of_alike h⟩

/-! ### Operations -/

theorem locates_iff_of_resolve {t : FileTree} {path name : String} {directory : List String}
    {slash : Bool} (h : t.resolve path = .ok (.name directory name slash)) {key : List String} :
    t.Locates path key ↔
      slash = false ∧ name.utf8ByteSize ≤ nameLimit ∧ key = directory ++ [name] := by
  constructor
  · rintro ⟨directory', name', hresolve, hsize, rfl⟩
    rw [h] at hresolve
    cases hresolve
    exact ⟨rfl, hsize, rfl⟩
  · rintro ⟨rfl, hsize, rfl⟩
    exact ⟨directory, name, h, hsize, rfl⟩

theorem read_eq_ok {t : FileTree} {path : String} {content : ByteArray} :
    t.read path = .ok content ↔ ∃ key, t.Locates path key ∧ t.find? key = some (.file content) := by
  rw [read]
  rcases hresolve : t.resolve path with error | _ | ⟨directory, name, slash⟩
  · simp [Locates, hresolve, bind, Except.bind]
  · simp [Locates, hresolve, bind, Except.bind, throw, throwThe, MonadExceptOf.throw]
  · simp only [locates_iff_of_resolve hresolve, bind, Except.bind]
    by_cases hsize : name.utf8ByteSize ≤ nameLimit
    · rw [lookup_of_le hsize]
      rcases hfind : t.find? (directory ++ [name]) with _ | _ | _ <;> cases slash <;>
        simp [hfind, hsize, throw, throwThe, MonadExceptOf.throw, pure, Except.pure]
    · simp [lookup_of_lt hsize, hsize]

theorem write_eq_ok {t t' : FileTree} {path : String} {content : ByteArray} :
    t.write path content = .ok t' ↔
      ∃ key, t.Locates path key ∧ t.find? key ≠ some .directory ∧
        t' = t.put key (.file content) := by
  rw [write]
  rcases hresolve : t.resolve path with error | _ | ⟨directory, name, slash⟩
  · simp [Locates, hresolve, bind, Except.bind]
  · simp [Locates, hresolve, bind, Except.bind, throw, throwThe, MonadExceptOf.throw]
  · simp only [locates_iff_of_resolve hresolve, bind, Except.bind]
    by_cases hsize : name.utf8ByteSize ≤ nameLimit
    · rw [lookup_of_le hsize]
      rcases hfind : t.find? (directory ++ [name]) with _ | _ | _ <;> cases slash <;>
        simp [hfind, hsize, throw, throwThe, MonadExceptOf.throw, pure, Except.pure, eq_comm]
    · cases slash <;> simp [lookup_of_lt hsize, hsize, throw, throwThe, MonadExceptOf.throw]

theorem remove_eq_ok {t t' : FileTree} {path : String} :
    t.remove path = .ok t' ↔
      ∃ key content, t.Locates path key ∧ t.find? key = some (.file content) ∧
        t' = t.erase key := by
  rw [remove]
  rcases hresolve : t.resolve path with error | _ | ⟨directory, name, slash⟩
  · simp [Locates, hresolve, bind, Except.bind]
  · simp [Locates, hresolve, bind, Except.bind, throw, throwThe, MonadExceptOf.throw]
  · simp only [locates_iff_of_resolve hresolve, bind, Except.bind]
    by_cases hsize : name.utf8ByteSize ≤ nameLimit
    · rw [lookup_of_le hsize]
      rcases hfind : t.find? (directory ++ [name]) with _ | _ | _ <;> cases slash <;>
        simp [hfind, hsize, throw, throwThe, MonadExceptOf.throw, pure, Except.pure, eq_comm]
    · simp [lookup_of_lt hsize, hsize]

theorem access_read (t : FileTree) (path : String) : access.read path t = (t.read path, t) := rfl

theorem access_write (t : FileTree) (path : String) (content : ByteArray) :
    access.write path content t =
      match t.write path content with
      | .ok t' => (.ok (), t')
      | .error error => (.error error, t) := by
  change (match t.write path content with | .ok _ => _ | .error _ => _ : StateM _ _) t = _
  cases t.write path content <;> rfl

theorem access_remove (t : FileTree) (path : String) :
    access.remove path t =
      match t.remove path with
      | .ok t' => (.ok (), t')
      | .error error => (.error error, t) := by
  change (match t.remove path with | .ok _ => _ | .error _ => _ : StateM _ _) t = _
  cases t.remove path <;> rfl

/-! ### Paths that differ in their last name -/

theorem segments_of_not_mem {text : List Char} (h : '/' ∉ text) : segments text = [text] := by
  induction text with
  | nil => rfl
  | cons c text ih =>
      rw [List.mem_cons, not_or] at h
      rw [segments, if_neg (Ne.symm h.1), ih h.2]

/-- Characters that follow a path go to its last piece. -/
theorem exists_segments (text : List Char) :
    ∃ before last, ∀ suffix, '/' ∉ suffix →
      segments (text ++ suffix) = before ++ [last ++ suffix] := by
  induction text with
  | nil => exact ⟨[], [], fun suffix hsuffix => segments_of_not_mem hsuffix⟩
  | cons c text ih =>
      obtain ⟨before, last, h⟩ := ih
      by_cases hc : c = '/'
      · refine ⟨[] :: before, last, fun suffix hsuffix => ?_⟩
        rw [List.cons_append, segments, if_pos hc, h suffix hsuffix, List.cons_append]
      · cases before with
        | nil =>
            refine ⟨[], c :: last, fun suffix hsuffix => ?_⟩
            rw [List.cons_append, segments, if_neg hc, h suffix hsuffix]
            rfl
        | cons first before =>
            refine ⟨(c :: first) :: before, last, fun suffix hsuffix => ?_⟩
            rw [List.cons_append, segments, if_neg hc, h suffix hsuffix]
            rfl

theorem exists_names {path : String} (hne : path ≠ "")
    (hslash : path.toList.getLast? ≠ some '/') :
    ∃ before last, ∀ suffix : String, '/' ∉ suffix.toList →
      names (path ++ suffix) = before ++ [last ++ suffix] := by
  obtain ⟨front, c, hpath⟩ : ∃ front c, path.toList = front ++ [c] := by
    rcases List.eq_nil_or_concat path.toList with hnil | ⟨front, c, hpath⟩
    · exact absurd (String.toList_eq_nil_iff.mp hnil) hne
    · exact ⟨front, c, by simpa using hpath⟩
  have hc : c ≠ '/' := by simpa [hpath] using hslash
  obtain ⟨before, last, h⟩ := exists_segments front
  refine ⟨(before.filter (!·.isEmpty)).map .ofList, .ofList (last ++ [c]), fun suffix hsuffix => ?_⟩
  have hsegments := h (c :: suffix.toList) (by simp [hc.symm, hsuffix])
  have htext : (path ++ suffix).toList = front ++ c :: suffix.toList := by
    rw [String.toList_append, hpath, List.append_assoc, List.singleton_append]
  have hlast : String.ofList (last ++ c :: suffix.toList) = .ofList (last ++ [c]) ++ suffix := by
    rw [← String.toList_inj, String.toList_append, String.toList_ofList, String.toList_ofList,
      List.append_assoc, List.singleton_append]
  have hkept : [last ++ c :: suffix.toList].filter (!·.isEmpty) = [last ++ c :: suffix.toList] := by
    simp
  rw [names, htext, hsegments, List.filter_append, List.map_append, hkept, List.map_singleton,
    hlast]

theorem Locates.names {t : FileTree} {path : String} {key : List String}
    (h : t.Locates path key) :
    path ≠ "" ∧ path.toList.getLast? ≠ some '/' ∧
      (FileTree.names path).getLast? = key.getLast? := by
  obtain ⟨directory, name, hresolve, -, rfl⟩ := h
  obtain ⟨hempty, -, -, hslash, before, hnames, -⟩ := resolve_eq_name.mp hresolve
  refine ⟨hempty, by simpa using hslash.symm, ?_⟩
  rw [hnames, List.getLast?_concat, List.getLast?_concat]

/-- Paths with different last names have different keys. -/
theorem Locates.ne_of_suffix {t : FileTree} {path suffix : String} {key key' : List String}
    (hsuffix : '/' ∉ suffix.toList) (hne : suffix ≠ "") (h : t.Locates path key)
    (h' : t.Locates (path ++ suffix) key') : key ≠ key' := by
  rintro rfl
  obtain ⟨hpath, hslash, hlast⟩ := h.names
  obtain ⟨before, last, hnames⟩ := exists_names hpath hslash
  have hsame := hlast.trans h'.names.2.2.symm
  have hbare := hnames "" (by simp)
  rw [String.append_empty, String.append_empty] at hbare
  rw [hbare, hnames suffix hsuffix, List.getLast?_concat, List.getLast?_concat,
    Option.some.injEq, ← String.toList_inj, String.toList_append,
    List.self_eq_append_right] at hsame
  exact hne (String.toList_eq_nil_iff.mp hsame)

theorem utf8ByteSize_replicate (n : Nat) (c : Char) :
    (String.ofList (List.replicate n c)).utf8ByteSize = n * c.utf8Size := by
  rw [String.utf8ByteSize_ofList]
  induction n with
  | zero => simp
  | succ n ih => simp [List.replicate_succ, ih, Nat.succ_mul]

/-- A path that is one long name does not name anything. -/
theorem not_locates_of_long {path : String} (hslash : '/' ∉ path.toList)
    (hlong : nameLimit < path.utf8ByteSize) (t : FileTree) (key : List String) :
    ¬t.Locates path key := by
  rintro ⟨directory, name, hresolve, hsize, -⟩
  obtain ⟨hempty, -, -, -, before, hnames, -⟩ := resolve_eq_name.mp hresolve
  have hsingle : FileTree.names path = [path] := by
    have hne : path.toList ≠ [] := mt String.toList_eq_nil_iff.mp hempty
    simp [FileTree.names, segments_of_not_mem hslash, hne]
  obtain rfl : path = name := by
    rw [hsingle] at hnames
    simpa using congrArg List.getLast? hnames
  omega

/-! ### What an operation leaves alone -/

/-- At most the entry that a path names is changed, and no directory is. -/
structure Touches (path : String) (t t' : FileTree) : Prop where
  alike : t.Alike t'
  others : ∀ key, ¬t.Locates path key → t'.find? key = t.find? key

theorem writable_iff {t : FileTree} {path : String} (content : ByteArray) :
    t.Writable path ↔ ∃ t', t.write path content = .ok t' := by
  simp only [Writable, write_eq_ok]
  grind

theorem touches_of_write {t t' : FileTree} {path : String} {content : ByteArray}
    (h : t.write path content = .ok t') :
    Touches path t t' ∧ t'.read path = .ok content := by
  obtain ⟨key, hkey, hfind, rfl⟩ := write_eq_ok.mp h
  have halike : t.Alike (t.put key (.file content)) := alike_put hkey.ne_nil hfind
  refine ⟨⟨halike, fun other hother => ?_⟩, ?_⟩
  · rw [find?_put hkey.ne_nil, if_neg]
    rintro rfl
    exact hother hkey
  · refine read_eq_ok.mpr ⟨key, hkey.of_alike halike, ?_⟩
    rw [find?_put hkey.ne_nil, if_pos rfl]

/-- What is left when the file at a path is removed, if there is one. -/
def discard (t : FileTree) (path : String) : FileTree :=
  match t.remove path with
  | .ok t' => t'
  | .error _ => t

theorem touches_discard (t : FileTree) (path : String) :
    Touches path t (t.discard path) ∧ ∀ content, (t.discard path).read path ≠ .ok content := by
  unfold discard
  cases hremove : t.remove path with
  | ok t' =>
      obtain ⟨key, content, hkey, hfind, rfl⟩ := remove_eq_ok.mp hremove
      have halike : t.Alike (t.erase key) := alike_erase hkey.ne_nil (by simp [hfind])
      refine ⟨⟨halike, fun other hother => ?_⟩, fun content hread => ?_⟩
      · rw [find?_erase hkey.ne_nil, if_neg]
        rintro rfl
        exact hother hkey
      · obtain ⟨key', hkey', hfile⟩ := read_eq_ok.mp hread
        obtain rfl := hkey.unique (halike.locates_iff.mp hkey')
        rw [find?_erase hkey.ne_nil, if_pos rfl] at hfile
        cases hfile
  | error error =>
      refine ⟨⟨.refl t, fun _ _ => rfl⟩, fun content hread => ?_⟩
      obtain ⟨key, hkey, hfile⟩ := read_eq_ok.mp hread
      cases hremove.symm.trans (remove_eq_ok.mpr ⟨key, content, hkey, hfile, rfl⟩)

theorem Touches.read_suffix {t t' : FileTree} {path suffix : String} {content : ByteArray}
    (h : Touches path t t') (hsuffix : '/' ∉ suffix.toList) (hne : suffix ≠ "")
    (hread : t.read (path ++ suffix) = .ok content) : t'.read (path ++ suffix) = .ok content := by
  obtain ⟨key, hkey, hfile⟩ := read_eq_ok.mp hread
  refine read_eq_ok.mpr ⟨key, hkey.of_alike h.alike, ?_⟩
  rw [h.others key fun hkey' => hkey'.ne_of_suffix hsuffix hne hkey rfl, hfile]

theorem Alike.writable_iff {t t' : FileTree} (h : t.Alike t') {path : String} :
    t'.Writable path ↔ t.Writable path := by
  simp only [Writable, h.locates_iff, ne_eq, h.directories]

end MicroC.FileTree
