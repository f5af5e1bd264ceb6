import Mathlib
import Mixtures.Store.Save

/-!
# What is found at a place

A file system is used through what is found at its places. Here is what the operations do to that,
and how much of it the resolution of a path depends on.

* `lookup_put_self`, `lookup_put_of_ne`, `lookup_remove_self`, `lookup_remove_of_ne`: an operation
  on a place changes what is found there and nothing else.
* `filePlace?_congr`: where a path leads is a matter of directories, so files that come and go do
  not change it.
* `read_of_filePlace?_eq_some`, `exists_read_of_filePlace?_eq_none`: what is read under a path is
  what is found where it leads.
* `lookup_firstFreeName`: there is nothing under the name that is chosen for a fresh file.
-/

namespace Mixtures.Store

namespace Place

theorem names_child_ne_nil (place : Place) (name : String) : (place.child name).names ≠ [] := by
  simp [child]

/-- A place tells its name, and the place of its directory. -/
theorem child_inj {place₁ place₂ : Place} {name₁ name₂ : String} :
    place₁.child name₁ = place₂.child name₂ ↔ place₁ = place₂ ∧ name₁ = name₂ := by
  obtain ⟨above₁, names₁⟩ := place₁
  obtain ⟨above₂, names₂⟩ := place₂
  rw [child, child, Place.mk.injEq, Place.mk.injEq, and_assoc]
  refine and_congr_right fun _ => ⟨fun h => ?_, fun ⟨h₁, h₂⟩ => by rw [h₁, h₂]⟩
  obtain ⟨hnames, hname⟩ := List.append_inj' h rfl
  exact ⟨hnames, List.singleton_inj.mp hname⟩

end Place

namespace FileSystem

variable {fs fs₁ fs₂ : FileSystem} {place other : Place} {entry : Entry}

/-! ## Operations on one place -/

private theorem ne_of_not_any {entries : List (Place × Entry)}
    (h : ¬entries.any fun e => e.1 == place) {e : Place × Entry} (he : e ∈ entries) :
    e.1 ≠ place :=
  fun heq => h (List.any_eq_true.mpr ⟨e, he, beq_iff_eq.mpr heq⟩)

private theorem lookup_cons_of_ne {entries : List (Place × Entry)} {e : Place × Entry}
    (h : other ≠ e.1) : (e :: entries).lookup other = entries.lookup other := by
  rw [List.lookup_cons, beq_eq_false_iff_ne.mpr h]

private theorem lookup_map_replace_self {entries : List (Place × Entry)}
    (h : entries.any fun e => e.1 == place) :
    (entries.map fun e => if e.1 == place then (place, entry) else e).lookup place =
      some entry := by
  induction entries with
  | nil => cases h
  | cons e entries ih =>
    rw [List.map_cons]
    by_cases he : e.1 = place
    · rw [if_pos (beq_iff_eq.mpr he), List.lookup_cons_self]
    · rw [if_neg (mt beq_iff_eq.mp he), lookup_cons_of_ne (Ne.symm he)]
      exact ih (by simpa [he] using h)

private theorem lookup_map_replace_of_ne (h : other ≠ place) (entries : List (Place × Entry)) :
    (entries.map fun e => if e.1 == place then (place, entry) else e).lookup other =
      entries.lookup other := by
  induction entries with
  | nil => rfl
  | cons e entries ih =>
    rw [List.map_cons]
    by_cases he : e.1 = place
    · subst he
      rw [if_pos (beq_iff_eq.mpr rfl), List.lookup_cons, List.lookup_cons,
        beq_eq_false_iff_ne.mpr h, ih]
    · rw [if_neg (mt beq_iff_eq.mp he), List.lookup_cons, List.lookup_cons, ih]

theorem lookup_put_self (h : place.names ≠ []) :
    (fs.put place entry).lookup place = some entry := by
  rw [lookup, if_neg h, put]
  split
  next hmem => exact lookup_map_replace_self hmem
  next hmem =>
    have hnone : fs.entries.lookup place = none := by
      rw [List.lookup_eq_none_iff]
      exact fun e he => bne_iff_ne.mpr (ne_of_not_any hmem he).symm
    rw [List.lookup_append, hnone, Option.none_or, List.lookup_cons_self]

theorem lookup_put_of_ne (h : other ≠ place) :
    (fs.put place entry).lookup other = fs.lookup other := by
  rw [lookup, lookup]
  split
  · rfl
  · rw [put]
    split
    · exact lookup_map_replace_of_ne h fs.entries
    · rw [List.lookup_append, lookup_cons_of_ne h, List.lookup_nil, Option.or_none]

theorem lookup_remove_self (h : place.names ≠ []) : (fs.remove place).lookup place = none := by
  rw [lookup, if_neg h, remove, List.lookup_eq_none_iff]
  intro e he
  have hne : e.1 ≠ place := bne_iff_ne.mp (List.mem_filter.mp he).2
  exact bne_iff_ne.mpr (Ne.symm hne)

theorem lookup_remove_of_ne (h : other ≠ place) :
    (fs.remove place).lookup other = fs.lookup other := by
  rw [lookup, lookup, remove]
  congr 1
  dsimp only
  induction fs.entries with
  | nil => rfl
  | cons e entries ih =>
    by_cases he : e.1 = place
    · subst he
      rw [List.filter_cons_of_neg (by simp), ih, lookup_cons_of_ne h]
    · rw [List.filter_cons_of_pos (by simpa using he), List.lookup_cons, List.lookup_cons, ih]

private theorem not_any_of_lookup_eq_none (h : fs.lookup place = none) :
    ¬fs.entries.any fun e => e.1 == place := by
  intro hany
  obtain ⟨e, he, heq⟩ := List.any_eq_true.mp hany
  rw [lookup] at h
  split at h
  · cases h
  · exact bne_iff_ne.mp (List.lookup_eq_none_iff.mp h e he) (beq_iff_eq.mp heq).symm

/-- Of two entries that a place receives the second one remains. -/
theorem put_put {entry₁ entry₂ : Entry} :
    (fs.put place entry₁).put place entry₂ = fs.put place entry₂ := by
  by_cases h : fs.entries.any fun e => e.1 == place
  · have hfirst : fs.put place entry₁ =
        ⟨fs.entries.map fun e => if e.1 == place then (place, entry₁) else e⟩ := by
      rw [put, if_pos h]
    have hany : (fs.entries.map fun e => if e.1 == place then (place, entry₁) else e).any
        fun e => e.1 == place := by
      obtain ⟨e, he, heq⟩ := List.any_eq_true.mp h
      exact List.any_eq_true.mpr ⟨(place, entry₁),
        List.mem_map.mpr ⟨e, he, by rw [if_pos heq]⟩, beq_iff_eq.mpr rfl⟩
    rw [hfirst, put, if_pos hany, put, if_pos h, List.map_map]
    congr 2
    funext e
    by_cases he : e.1 = place <;> simp [he]
  · have hfirst : fs.put place entry₁ = ⟨fs.entries ++ [(place, entry₁)]⟩ := by rw [put, if_neg h]
    have hkept : (fs.entries.map fun e => if e.1 == place then (place, entry₂) else e) =
        fs.entries := by
      conv_rhs => rw [← List.map_id fs.entries]
      refine List.map_congr_left fun e he => ?_
      rw [if_neg (mt beq_iff_eq.mp (ne_of_not_any h he)), id]
    rw [hfirst, put, if_pos (by simp), put, if_neg h, List.map_append, hkept]
    simp

/-- Removing what has just been created leaves no trace. -/
theorem remove_put (h : fs.lookup place = none) : (fs.put place entry).remove place = fs := by
  have hany := not_any_of_lookup_eq_none h
  have hkept : fs.entries.filter (fun e => e.1 != place) = fs.entries := by
    rw [List.filter_eq_self]
    exact fun e he => bne_iff_ne.mpr (ne_of_not_any hany he)
  rw [put, if_neg hany, remove, List.filter_append, hkept]
  simp

/-! ## Where paths lead -/

/-- The same places are directories. -/
def SameDirectories (fs₁ fs₂ : FileSystem) : Prop :=
  ∀ place, fs₁.lookup place = some .directory ↔ fs₂.lookup place = some .directory

theorem SameDirectories.trans {fs₃ : FileSystem} (h₁₂ : SameDirectories fs₁ fs₂)
    (h₂₃ : SameDirectories fs₂ fs₃) : SameDirectories fs₁ fs₃ :=
  fun place => (h₁₂ place).trans (h₂₃ place)

theorem ne_directory_of_eq_none (h : fs.lookup place = none) :
    fs.lookup place ≠ some .directory := by
  simp [h]

theorem ne_directory_of_eq_file {content : Bytes} (h : fs.lookup place = some (.file content)) :
    fs.lookup place ≠ some .directory := by
  simp [h]

/-- A file in a place that was no directory leaves directories alone. -/
theorem sameDirectories_put {content : Bytes} (hnames : place.names ≠ [])
    (h : fs.lookup place ≠ some .directory) :
    SameDirectories (fs.put place (.file content)) fs := by
  intro other
  by_cases hother : other = place
  · subst hother
    rw [lookup_put_self hnames]
    exact ⟨nofun, fun hdir => absurd hdir h⟩
  · rw [lookup_put_of_ne hother]

/-- Removing what is no directory leaves directories alone. -/
theorem sameDirectories_remove (hnames : place.names ≠ [])
    (h : fs.lookup place ≠ some .directory) : SameDirectories (fs.remove place) fs := by
  intro other
  by_cases hother : other = place
  · subst hother
    rw [lookup_remove_self hnames]
    exact ⟨nofun, fun hdir => absurd hdir h⟩
  · rw [lookup_remove_of_ne hother]

/-- A name on the way leads on if there is a directory under it. -/
private theorem enter_cons_eq_ok_iff {start target : Place} {name : String} {names : List String}
    (hhere : name ≠ ".") (habove : name ≠ "..") (hlength : ¬Path.maxNameBytes < name.utf8ByteSize) :
    fs.enter start (name :: names) = .ok target ↔
      fs.lookup (start.child name) = some .directory ∧
        fs.enter (start.child name) names = .ok target := by
  rw [enter, if_neg hhere, if_neg habove, if_neg hlength]
  cases fs.lookup (start.child name) with
  | none => simp
  | some entry => cases entry <;> simp

theorem enter_eq_ok_iff (h : SameDirectories fs₁ fs₂) {start target : Place}
    {names : List String} :
    fs₁.enter start names = .ok target ↔ fs₂.enter start names = .ok target := by
  induction names generalizing start with
  | nil => rw [enter, enter]
  | cons name names ih =>
    by_cases hhere : name = "."
    · rw [enter, enter, if_pos hhere, if_pos hhere, ih]
    by_cases habove : name = ".."
    · rw [enter, enter, if_neg hhere, if_neg hhere, if_pos habove, if_pos habove, ih]
    by_cases hlength : Path.maxNameBytes < name.utf8ByteSize
    · rw [enter, enter, if_neg hhere, if_neg hhere, if_neg habove, if_neg habove, if_pos hlength,
        if_pos hlength]
    · rw [enter_cons_eq_ok_iff hhere habove hlength, enter_cons_eq_ok_iff hhere habove hlength,
        h (start.child name), ih]

/-- Where a path leads is a matter of directories. -/
theorem resolve_eq_ok_iff (h : SameDirectories fs₁ fs₂) {path : Path} {target : Target} :
    fs₁.resolve path = .ok target ↔ fs₂.resolve path = .ok target := by
  rw [resolve, resolve]
  cases path.check with
  | error fault => rfl
  | ok checked =>
    cases path.names.getLast? with
    | none => rfl
    | some last =>
      dsimp only [bind, Except.bind]
      cases h₁ : fs₁.enter .workingDirectory path.names.dropLast with
      | ok directory => rw [(enter_eq_ok_iff h).mp h₁]
      | error fault₁ =>
        cases h₂ : fs₂.enter .workingDirectory path.names.dropLast with
        | ok directory =>
          rw [(enter_eq_ok_iff h).mpr h₂] at h₁
          cases h₁
        | error fault₂ => exact ⟨nofun, nofun⟩

/-- A place that a path leads to has the last name of the path. -/
theorem exists_child_of_resolve {path : Path} (h : fs.resolve path = .ok (.named place)) :
    ∃ directory : Place, ∃ name ∈ path.names.getLast?, place = directory.child name := by
  rw [resolve] at h
  cases hcheck : path.check with
  | error fault =>
    rw [hcheck] at h
    cases h
  | ok checked =>
    rw [hcheck] at h
    cases hlast : path.names.getLast? with
    | none =>
      rw [hlast] at h
      cases h
    | some last =>
      rw [hlast] at h
      dsimp only [bind, Except.bind] at h
      cases henter : fs.enter .workingDirectory path.names.dropLast with
      | error fault =>
        rw [henter] at h
        cases h
      | ok directory =>
        rw [henter] at h
        dsimp only at h
        split at h
        · cases h
        split at h
        · cases h
        split at h
        · cases h
        · cases h
          exact ⟨directory, last, rfl, rfl⟩

/-- The place of the file that a path can be the path of. There may be a file, a directory or
nothing. -/
def filePlace? (fs : FileSystem) (path : Path) : Option Place :=
  match fs.resolve path with
  | .ok (.named place) => if path.endsInSlash then none else some place
  | _ => none

theorem filePlace?_eq_some_iff {path : Path} :
    fs.filePlace? path = some place ↔
      fs.resolve path = .ok (.named place) ∧ path.endsInSlash = false := by
  rw [filePlace?]
  split
  next target hresolve =>
    rw [hresolve]
    cases path.endsInSlash <;> simp
  next hresolve => exact ⟨nofun, fun h => absurd h.1 (hresolve place)⟩

/-- The place of the file that a path can be the path of is a matter of directories too. -/
theorem filePlace?_congr (h : SameDirectories fs₁ fs₂) (path : Path) :
    fs₁.filePlace? path = fs₂.filePlace? path := by
  ext place
  rw [filePlace?_eq_some_iff, filePlace?_eq_some_iff, resolve_eq_ok_iff h]

/-- The place has the last name of the path. -/
theorem exists_child_of_filePlace? {path : Path} (h : fs.filePlace? path = some place) :
    ∃ directory : Place, ∃ name ∈ path.names.getLast?, place = directory.child name :=
  exists_child_of_resolve (filePlace?_eq_some_iff.mp h).1

theorem names_ne_nil_of_filePlace? {path : Path} (h : fs.filePlace? path = some place) :
    place.names ≠ [] := by
  obtain ⟨directory, name, -, rfl⟩ := exists_child_of_filePlace? h
  exact Place.names_child_ne_nil directory name

/-- Reading gives the content of the file that is where the path leads. -/
theorem read_of_filePlace?_eq_some {path : Path} (h : fs.filePlace? path = some place) :
    fs.read path =
      match fs.lookup place with
      | none => .error .notFound
      | some .directory => .error .isDirectory
      | some (.file content) => .ok content := by
  obtain ⟨hresolve, hslash⟩ := filePlace?_eq_some_iff.mp h
  rw [read, hresolve]
  dsimp only [bind, Except.bind]
  rw [hslash]
  rfl

/-- Nothing is read under a path that cannot be the path of a file. -/
theorem exists_read_of_filePlace?_eq_none {path : Path} (h : fs.filePlace? path = none) :
    ∃ fault, fs.read path = .error fault := by
  rw [read]
  cases hresolve : fs.resolve path with
  | error fault => exact ⟨fault, rfl⟩
  | ok target =>
    cases target with
    | reference place => exact ⟨.isDirectory, rfl⟩
    | named place =>
      have hslash : path.endsInSlash = true := by
        by_contra hslash
        rw [filePlace?_eq_some_iff.mpr ⟨hresolve, by simpa using hslash⟩] at h
        cases h
      dsimp only [bind, Except.bind]
      rw [hslash]
      split
      · exact ⟨_, rfl⟩
      · exact ⟨_, rfl⟩
      · exact ⟨_, rfl⟩

/-- A rename that succeeds moves what is at its source to where its path leads, where there is no
directory. -/
theorem exists_of_rename_eq_ok {source : Place} {path : Path} {renamed : FileSystem}
    (h : fs.rename source path = .ok renamed) :
    ∃ place entry, fs.filePlace? path = some place ∧ fs.lookup place ≠ some .directory ∧
      fs.lookup source = some entry ∧ renamed = (fs.remove source).put place entry := by
  rw [rename] at h
  cases hresolve : fs.resolve path with
  | error fault =>
    rw [hresolve] at h
    cases h
  | ok target =>
    rw [hresolve] at h
    cases target with
    | reference place => cases h
    | named place =>
      dsimp only [bind, Except.bind] at h
      split at h
      · cases h
      next hslash =>
        split at h
        · cases h
        next entry hsource hplace =>
          cases h
          exact ⟨place, entry, filePlace?_eq_some_iff.mpr ⟨hresolve, by simpa using hslash⟩,
            hplace, hsource, rfl⟩
        · cases h

/-- A file takes the name that a path gives it, unless a directory has that name. -/
theorem rename_eq_ok {source : Place} {path : Path} {content : Bytes}
    (h : fs.filePlace? path = some place) (hplace : fs.lookup place ≠ some .directory)
    (hsource : fs.lookup source = some (.file content)) :
    fs.rename source path = .ok ((fs.remove source).put place (.file content)) := by
  obtain ⟨hresolve, hslash⟩ := filePlace?_eq_some_iff.mp h
  rw [rename, hresolve]
  dsimp only [bind, Except.bind]
  rw [hslash, if_neg Bool.false_ne_true, hsource]
  cases hentry : fs.lookup place with
  | none => rfl
  | some entry =>
    cases entry with
    | file => rfl
    | directory => exact absurd hentry hplace

/-! ## Names for fresh files -/

/-- The place of a fresh file has the chosen name, in the directory that was entered. -/
theorem exists_of_freshPlace_eq_ok {freshName : FileSystem → Place → String} {path : Path}
    (h : fs.freshPlace freshName path = .ok place) :
    ∃ directory : Place, place = directory.child (freshName fs directory) := by
  rw [freshPlace] at h
  cases hcheck : (path.child ".tmp000000").check with
  | error fault =>
    rw [hcheck] at h
    cases h
  | ok checked =>
    rw [hcheck] at h
    dsimp only [bind, Except.bind] at h
    cases henter : fs.enter .workingDirectory path.names with
    | error fault =>
      rw [henter] at h
      cases h
    | ok directory =>
      rw [henter] at h
      cases h
      exact ⟨directory, rfl⟩

/-- All names for fresh files begin alike. -/
theorem exists_firstFreeName_eq (fs : FileSystem) (directory : Place) :
    ∃ rest, fs.firstFreeName directory = ".tmp" ++ rest := by
  rw [firstFreeName]
  cases hfound : List.find? _ _ with
  | none => exact ⟨"000000", rfl⟩
  | some name =>
    obtain ⟨n, -, rfl⟩ := List.mem_map.mp (List.mem_of_find?_eq_some hfound)
    exact ⟨toString (100000 + n), rfl⟩

private theorem mem_entries_of_lookup_ne_none (hnames : place.names ≠ [])
    (h : fs.lookup place ≠ none) : place ∈ fs.entries.map (·.1) := by
  by_contra hmem
  refine h ?_
  rw [lookup, if_neg hnames, List.lookup_eq_none_iff]
  exact fun e he => bne_iff_ne.mpr fun heq => hmem (List.mem_map.mpr ⟨e, he, heq.symm⟩)

/-- There are more names to try than entries, so one of them is free. -/
theorem lookup_firstFreeName (fs : FileSystem) (directory : Place) :
    fs.lookup (directory.child (fs.firstFreeName directory)) = none := by
  rw [firstFreeName]
  cases hfound : List.find? _ _ with
  | some name =>
    simpa using List.find?_some hfound
  | none =>
    exfalso
    have hnodup : ((List.range (fs.entries.length + 1)).map fun n =>
        directory.child (".tmp" ++ toString (100000 + n))).Nodup := by
      refine List.nodup_range.map fun m n hmn => ?_
      have hname := (String.append_right_inj _).mp (Place.child_inj.mp hmn).2
      have hnumber := Nat.repr_injective hname
      omega
    have htaken : ((List.range (fs.entries.length + 1)).map fun n =>
        directory.child (".tmp" ++ toString (100000 + n))) ⊆ fs.entries.map (·.1) := by
      intro place hplace
      obtain ⟨n, hn, rfl⟩ := List.mem_map.mp hplace
      have hused := List.find?_eq_none.mp hfound _ (List.mem_map.mpr ⟨n, hn, rfl⟩)
      refine mem_entries_of_lookup_ne_none (Place.names_child_ne_nil _ _) fun hnone => hused ?_
      rw [hnone]
      rfl
    have hlength := hnodup.length_le_of_subset htaken
    simp only [List.length_map, List.length_range] at hlength
    omega

end FileSystem

end Mixtures.Store
