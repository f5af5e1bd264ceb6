import Mixtures.Proofs.Store.Places

/-!
# What saving does to a file system

`Effect` says once what a step of saving can do: nothing that can be seen, creating the fresh file,
adding bytes to it, removing it, or giving it the name of the destination. A call that runs alone
therefore leaves the file system as it was until its last step, but for the fresh file. `Alone`
says so, and how much of the encoding the fresh file holds; it is what the steps keep.

* `step_effect`: every step has one of these effects.
* `run_keeps`: what every step keeps holds at the end of a run.
* `saveWith_error`, `saveWith_ok`: a call that fails leaves no trace, and one that succeeds has put
  the whole encoding at its destination and done nothing else.
* `saveWith_of_works`: a call succeeds if its directory can be entered, its destination is no
  directory and the system refuses nothing.
-/

namespace Mixtures.Store

/-- The names that are chosen for fresh files are free. -/
def Device.NamesFresh (device : Device) : Prop :=
  ∀ (fs : FileSystem) (directory : Place),
    fs.lookup (directory.child (device.freshName fs directory)) = none

/-- The system refuses nothing. -/
structure Device.Works (device : Device) : Prop where
  /-- No step fails. -/
  fault_eq_none : ∀ step, device.fault step = none
  /-- A write takes some of the bytes that it is offered. -/
  taken_pos : ∀ n offered, 0 < offered → 0 < device.taken n offered

namespace Progress

/-! ## The effect of one step -/

/-- The place of the fresh file, while it is there. -/
def fresh? : Progress → Option Place
  | filling fresh _ _ _ | draining fresh _ _ _ | flushed fresh | synced fresh | broken fresh _ =>
    some fresh
  | ready | finished | failed _ => none

/-- The bytes that are still to reach the fresh file, unless a step has failed. -/
def pending? : Progress → Option Bytes
  | filling _ _ buffer left | draining _ _ buffer left => some (buffer ++ left.flatten)
  | flushed _ | synced _ => some []
  | ready | broken _ _ | finished | failed _ => none

/-- Saving has succeeded. -/
def isFinished : Progress → Bool
  | finished => true
  | _ => false

theorem isFinished_iff {progress : Progress} :
    progress.isFinished = true ↔ progress = .finished := by
  cases progress <;> simp [isFinished]

theorem isFinished_eq_false_of_fresh? {progress : Progress} {place : Place}
    (h : progress.fresh? = some place) : progress.isFinished = false := by
  cases progress <;> simp_all [isFinished, fresh?]

variable {device : Device} {path : Path} {content : List Bytes} {fs after : FileSystem}
  {before next : Progress}

/-- What a step can do: the progress before and after it, and the file system after it. -/
inductive Effect (device : Device) (path : Path) (content : List Bytes) (fs : FileSystem) :
    Progress → Progress → FileSystem → Prop
  /-- Nothing that can be seen. -/
  | quiet {before next : Progress} (hfresh : next.fresh? = before.fresh?)
      (hpending : next.pending? = none ∨ next.pending? = before.pending?)
      (hfinished : next.isFinished = before.isFinished) :
      Effect device path content fs before next fs
  /-- Creating the fresh file. -/
  | created (directory : Place) :
      Effect device path content fs .ready
        (.filling (directory.child (device.freshName fs directory)) 0 [] content)
        (fs.put (directory.child (device.freshName fs directory)) (.file []))
  /-- Adding bytes to the fresh file. -/
  | handed {before next : Progress} {fresh : Place} {bytes rest : Bytes}
      (hbefore : before.fresh? = some fresh) (hnext : next.fresh? = some fresh)
      (hpending : before.pending? = some (bytes ++ rest)) (hrest : next.pending? = some rest) :
      Effect device path content fs before next (fs.append fresh bytes)
  /-- Removing the fresh file. -/
  | removed (fresh : Place) (fault : FileFault) :
      Effect device path content fs (.broken fresh fault) (.failed fault) (fs.remove fresh)
  /-- Giving the fresh file the name of the destination. -/
  | renamed {fresh : Place} {renamed : FileSystem} (h : fs.rename fresh path = .ok renamed) :
      Effect device path content fs (.synced fresh) .finished renamed

/-- A step that fails leaves everything to the removal of the fresh file. -/
private theorem effect_broken {fresh : Place} {fault : FileFault}
    (h : before.fresh? = some fresh) :
    Effect device path content fs before (.broken fresh fault) fs :=
  .quiet h.symm (.inl rfl) (isFinished_eq_false_of_fresh? h).symm

/-- **Every step has one of these effects.** -/
theorem step_effect (device : Device) (path : Path) (content : List Bytes) (progress : Progress)
    (fs : FileSystem) :
    Effect device path content fs progress (progress.step device path content fs).1
      (progress.step device path content fs).2 := by
  match progress with
  | ready =>
    rw [step]
    split
    · exact .quiet rfl (.inl rfl) rfl
    · exact .quiet rfl (.inl rfl) rfl
    next fresh hfault hfresh =>
      obtain ⟨directory, rfl⟩ := FileSystem.exists_of_freshPlace_eq_ok hfresh
      exact .created directory
  | filling fresh n buffer [] =>
    exact .quiet rfl (.inr rfl) rfl
  | filling fresh n buffer (part :: left) =>
    rw [step]
    split
    · exact .quiet rfl (.inr (by simp [pending?])) rfl
    · exact .quiet rfl (.inr rfl) rfl
  | draining fresh n [] [] =>
    rw [step]
    split
    · exact effect_broken rfl
    · exact .quiet rfl (.inr rfl) rfl
  | draining fresh n [] (part :: left) =>
    rw [step]
    split <;> exact .quiet rfl (.inr rfl) rfl
  | draining fresh n (b :: bs) left =>
    rw [step]
    split
    · exact effect_broken rfl
    · dsimp only
      split
      · exact effect_broken rfl
      · refine .handed rfl rfl ?_ rfl
        rw [pending?, ← List.append_assoc, List.take_append_drop]
  | flushed fresh =>
    rw [step]
    split
    · exact effect_broken rfl
    · exact .quiet rfl (.inr rfl) rfl
  | synced fresh =>
    rw [step]
    split
    · exact effect_broken rfl
    · exact effect_broken rfl
    next renamed hfault hrename => exact .renamed hrename
  | broken fresh fault => exact .removed fresh fault
  | finished => exact .quiet rfl (.inl rfl) rfl
  | failed fault => exact .quiet rfl (.inl rfl) rfl

/-- What every step keeps holds at the end of a run. -/
theorem run_keeps (holds : Progress → FileSystem → Prop)
    (hstep : ∀ now fs, holds now fs →
      holds (now.step device path content fs).1 (now.step device path content fs).2)
    (h : holds before fs) :
    ∃ last : Progress, last.result? = some (before.run device path content fs).1 ∧
      holds last (before.run device path content fs).2 := by
  induction before, fs using Progress.run.induct device path content with
  | case1 before fs result hresult =>
    rw [Progress.run]
    split
    next hend => exact ⟨before, hend, h⟩
    next hend => rw [hend] at hresult; cases hresult
  | case2 before fs hresult next ih =>
    rw [Progress.run]
    split
    next hend => rw [hend] at hresult; cases hresult
    next => exact ih (hstep before fs h)

/-! ## A call that runs alone -/

/-- What a call that runs alone has made of a file system so far. -/
inductive Alone (original : FileSystem) (path : Path) (content : List Bytes) :
    Progress → FileSystem → Prop
  /-- Nothing: the fresh file is not there yet, or not any more. -/
  | untouched {progress : Progress} (hfresh : progress.fresh? = none)
      (hunfinished : progress.isFinished = false) :
      Alone original path content progress original
  /-- There is one file more, with what has been handed over. -/
  | drafted {progress : Progress} {fresh : Place} {handed : Bytes}
      (hfresh : progress.fresh? = some fresh) (hnames : fresh.names ≠ [])
      (hfree : original.lookup fresh = none)
      (hrest : ∀ rest ∈ progress.pending?, handed ++ rest = content.flatten) :
      Alone original path content progress (original.put fresh (.file handed))
  /-- The destination holds the whole content. -/
  | saved {place : Place} (htarget : original.filePlace? path = some place)
      (hplace : original.lookup place ≠ some .directory) :
      Alone original path content .finished (original.put place (.file content.flatten))

variable {original : FileSystem}

/-- A file in a place that was free leaves directories alone. -/
private theorem sameDirectories_draft {fresh : Place} (hnames : fresh.names ≠ [])
    (hfree : original.lookup fresh = none) (handed : Bytes) :
    FileSystem.SameDirectories (original.put fresh (.file handed)) original :=
  FileSystem.sameDirectories_put hnames (FileSystem.ne_directory_of_eq_none hfree)

/-- Steps keep what holds of a call that runs alone. -/
theorem Alone.effect (hnames : device.NamesFresh) (h : Alone original path content before fs)
    (heffect : Effect device path content fs before next after) :
    Alone original path content next after := by
  cases heffect with
  | quiet hfresh hpending hfinished =>
    cases h with
    | untouched hnone hunfinished =>
      exact .untouched (hfresh.trans hnone) (hfinished.trans hunfinished)
    | drafted hsome hnonempty hfree hrest =>
      refine .drafted (hfresh.trans hsome) hnonempty hfree fun rest h => hrest rest ?_
      exact hpending.resolve_left (Option.ne_none_iff_exists'.mpr ⟨rest, h⟩) ▸ h
    | saved htarget hplace =>
      obtain rfl := isFinished_iff.mp hfinished
      exact .saved htarget hplace
  | created directory =>
    cases h with
    | untouched hnone hunfinished =>
      refine .drafted rfl (Place.names_child_ne_nil _ _) (hnames _ directory) ?_
      rintro rest ⟨⟩
      rfl
    | drafted hsome => cases hsome
  | handed hbefore hnext hpending hrest =>
    cases h with
    | untouched hnone =>
      rw [hbefore] at hnone
      cases hnone
    | drafted hsome hnonempty hfree hdraft =>
      obtain rfl := Option.some.inj (hbefore.symm.trans hsome)
      rw [FileSystem.append, FileSystem.lookup_put_self hnonempty]
      dsimp only
      rw [FileSystem.put_put]
      refine .drafted hnext hnonempty hfree fun left hleft => ?_
      obtain rfl := Option.some.inj (hrest.symm.trans hleft)
      rw [List.append_assoc, hdraft _ hpending]
    | saved => cases hbefore
  | removed fresh fault =>
    cases h with
    | untouched hnone => cases hnone
    | drafted hsome hnonempty hfree hdraft =>
      obtain rfl := Option.some.inj hsome
      rw [FileSystem.remove_put hfree]
      exact .untouched rfl rfl
  | renamed hrename =>
    cases h with
    | untouched hnone => cases hnone
    | drafted hsome hnonempty hfree hdraft =>
      obtain rfl := Option.some.inj hsome
      obtain ⟨place, entry, htarget, hplace, hsource, rfl⟩ :=
        FileSystem.exists_of_rename_eq_ok hrename
      rw [FileSystem.lookup_put_self hnonempty] at hsource
      obtain rfl := Option.some.inj hsource
      have hcontent := hdraft [] rfl
      rw [List.append_nil] at hcontent
      rw [FileSystem.remove_put hfree, hcontent]
      have hdirectories := sameDirectories_draft hnonempty hfree content.flatten
      rw [hcontent] at htarget hplace
      exact .saved (FileSystem.filePlace?_congr hdirectories path ▸ htarget)
        (mt (hdirectories place).mpr hplace)

/-! ## A system that refuses nothing -/

/-- The fault of a step that has failed. -/
def fault? : Progress → Option FileFault
  | broken _ fault | failed fault => some fault
  | _ => none

/-- Where nothing is refused, no step fails. -/
theorem Alone.fault?_step (hworks : device.Works) {fresh place : Place}
    (hfresh : original.freshPlace device.freshName path.parent = .ok fresh)
    (htarget : original.filePlace? path = some place)
    (hplace : original.lookup place ≠ some .directory) (h : Alone original path content before fs)
    (hbefore : before.fault? = none) :
    (before.step device path content fs).1.fault? = none := by
  match before with
  | ready =>
    cases h with
    | untouched =>
      rw [step, hworks.fault_eq_none, hfresh]
      rfl
    | drafted hsome => cases hsome
  | filling _ _ _ [] => rfl
  | filling _ _ _ (_ :: _) =>
    rw [step]
    split <;> rfl
  | draining _ n (b :: bs) _ =>
    have htaken := hworks.taken_pos n (b :: bs).length (Nat.succ_pos _)
    rw [step, hworks.fault_eq_none]
    dsimp only
    rw [if_neg (Nat.ne_of_gt htaken)]
    rfl
  | draining _ _ [] (_ :: _) =>
    rw [step]
    split <;> rfl
  | draining _ _ [] [] =>
    rw [step, hworks.fault_eq_none]
    rfl
  | flushed _ =>
    rw [step, hworks.fault_eq_none]
    rfl
  | synced draft =>
    cases h with
    | untouched hnone => cases hnone
    | @drafted _ _ handed hsome hnonempty hfree =>
      obtain rfl := Option.some.inj hsome
      have hdirectories := sameDirectories_draft hnonempty hfree handed
      have hrename := FileSystem.rename_eq_ok
        ((FileSystem.filePlace?_congr hdirectories path).trans htarget)
        (mt (hdirectories place).mp hplace) (FileSystem.lookup_put_self hnonempty)
      rw [step, hworks.fault_eq_none, hrename]
      rfl
  | broken _ _ | failed _ => cases hbefore
  | finished => rfl

theorem Alone.run_eq_ok (hnames : device.NamesFresh) (hworks : device.Works) {fresh place : Place}
    (hfresh : original.freshPlace device.freshName path.parent = .ok fresh)
    (htarget : original.filePlace? path = some place)
    (hplace : original.lookup place ≠ some .directory) (h : Alone original path content before fs)
    (hbefore : before.fault? = none) : (before.run device path content fs).1 = .ok () := by
  obtain ⟨last, hresult, -, hlast⟩ :=
    run_keeps (fun now fs => Alone original path content now fs ∧ now.fault? = none)
      (fun now fs h => ⟨h.1.effect hnames (step_effect device path content now fs),
        h.1.fault?_step hworks hfresh htarget hplace h.2⟩) ⟨h, hbefore⟩
  cases last with
  | finished => exact (Option.some.inj hresult).symm
  | failed fault => cases hlast
  | _ => cases hresult

end Progress

/-! ## A whole call -/

variable {device : Device} {path : Path} {fs : FileSystem} {models : Collection UInt64}

/-- A call that runs alone ends, and leaves behind what its last step leaves. -/
theorem exists_of_saveWith (hnames : device.NamesFresh) (fs : FileSystem) (path : Path)
    (models : Collection UInt64) :
    ∃ (last : Progress) (result : Except FileFault Unit) (after : FileSystem),
      last.result? = some result ∧ saveWith device fs path models = (result.mapError .file, after) ∧
        Progress.Alone fs path (parts models) last after := by
  have hstart : Progress.Alone fs path (parts models) .ready fs := .untouched rfl rfl
  obtain ⟨last, hresult, hlast⟩ := Progress.run_keeps (Progress.Alone fs path (parts models))
    (fun now after h => h.effect hnames (Progress.step_effect device path (parts models) now after))
    hstart
  exact ⟨last, _, _, hresult, rfl, hlast⟩

/-- A call that fails leaves no trace. -/
theorem saveWith_error (hnames : device.NamesFresh) {error : Error}
    (h : (saveWith device fs path models).1 = .error error) :
    (saveWith device fs path models).2 = fs := by
  obtain ⟨last, result, after, hresult, hcall, hlast⟩ := exists_of_saveWith hnames fs path models
  rw [hcall] at h ⊢
  match last with
  | .failed fault =>
    cases hlast with
    | untouched => rfl
    | drafted hsome => cases hsome
  | .finished =>
    cases hresult
    cases h

/-- A call that succeeds puts the encoding at its destination, and does nothing else. -/
theorem saveWith_ok (hnames : device.NamesFresh)
    (h : (saveWith device fs path models).1 = .ok ()) :
    ∃ place, fs.filePlace? path = some place ∧ fs.lookup place ≠ some .directory ∧
      (saveWith device fs path models).2 = fs.put place (.file (encode models)) := by
  obtain ⟨last, result, after, hresult, hcall, hlast⟩ := exists_of_saveWith hnames fs path models
  rw [hcall] at h ⊢
  match last with
  | .failed fault =>
    cases hresult
    cases h
  | .finished =>
    cases hlast with
    | untouched _ hunfinished => cases hunfinished
    | drafted hsome => cases hsome
    | @saved place htarget hplace => exact ⟨place, htarget, hplace, rfl⟩

/-- A call succeeds if its directory can be entered, its destination is no directory and the system
refuses nothing. -/
theorem saveWith_of_works (hnames : device.NamesFresh) (hworks : device.Works)
    {fresh place : Place} (hfresh : fs.freshPlace device.freshName path.parent = .ok fresh)
    (htarget : fs.filePlace? path = some place)
    (hplace : fs.lookup place ≠ some .directory) :
    (saveWith device fs path models).1 = .ok () := by
  have hstart : Progress.Alone fs path (parts models) .ready fs := .untouched rfl rfl
  have hrun := hstart.run_eq_ok hnames hworks hfresh htarget hplace rfl
  show (Progress.run device path (parts models) .ready fs).1.mapError Error.file = .ok ()
  rw [hrun]
  rfl

end Mixtures.Store
