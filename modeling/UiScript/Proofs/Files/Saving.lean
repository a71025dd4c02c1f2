import UiScript.Proofs.Files.Ways

/-!
# Saving files

Making folders and writing a file are edits, whether they succeed or not, and only the place that
the path of the file names is written. After a success the file is there.
-/

namespace UiScript.Disk

variable {d : Disk} {path : String} {written : List String → Prop} {handle : FileError → Action}

lemma run_get (f : Disk → Action) (d : Disk) :
    (MonadState.get >>= f).run.run d = (f d).run.run d := rfl

lemma run_tryCatch_error {d' : Disk} {e : FileError} {action : Action}
    (h : action.run.run d = (.error e, d')) :
    (MonadExcept.tryCatch action handle).run.run d = (handle e).run.run d' := by
  change (ExceptT.tryCatch action handle).run.run d = _
  have haction : StateT.run action d = (.error e, d') := h
  rw [ExceptT.tryCatch, ExceptT.run_mk, StateT.run_bind, haction]
  rfl

lemma run_tryCatch_ok {d' : Disk} {action : Action} (h : action.run.run d = (.ok (), d')) :
    (MonadExcept.tryCatch action handle).run.run d = (.ok (), d') := by
  change (ExceptT.tryCatch action handle).run.run d = _
  have haction : StateT.run action d = (.ok (), d') := h
  rw [ExceptT.tryCatch, ExceptT.run_mk, StateT.run_bind, haction]
  rfl

def Action.IsEdit (written : List String → Prop) (action : Action) : Prop :=
  ∀ d, Edited written d (action.run.run d).2

namespace Action.IsEdit

variable {action : Action}

lemma pure : IsEdit written (Pure.pure ()) := fun d => .refl written d

lemma throw (e : FileError) : IsEdit written (MonadExcept.throw e) := fun d => .refl written d

lemma get {f : Disk → Action} (h : ∀ d, Edited written d ((f d).run.run d).2) :
    IsEdit written (MonadState.get >>= f) := h

lemma bind {next : Unit → Action} (h : IsEdit written action) (hnext : IsEdit written (next ())) :
    IsEdit written (action >>= next) := by
  intro d
  have hd := h d
  rw [ExceptT.run_bind, StateT.run_bind]
  generalize action.run.run d = r at hd ⊢
  obtain ⟨result, d'⟩ := r
  cases result with
  | error => exact hd
  | ok => exact hd.trans (hnext d')

lemma tryCatch (h : IsEdit written action) (hhandle : ∀ e, IsEdit written (handle e)) :
    IsEdit written (MonadExcept.tryCatch action handle) := by
  intro d
  have hd := h d
  rcases hrun : action.run.run d with ⟨e | _, d'⟩ <;> rw [hrun] at hd
  · rw [run_tryCatch_error hrun]
    exact hd.trans (hhandle e d')
  · rw [run_tryCatch_ok hrun]
    exact hd

end Action.IsEdit

lemma slash_notMem_splitParts (path : String) : '/' ∉ (splitParts path).2.toList := by
  unfold splitParts
  dsimp only
  rcases List.eq_nil_or_concat ((Path.segments path).reverse.dropWhile (·.isEmpty)).reverse with
    hnil | ⟨parts, name, hconcat⟩
  · rw [hnil]
    exact List.not_mem_nil
  · rw [hconcat, List.concat_eq_append, List.getLastD_concat]
    refine Item.slash_notMem_segments path name ?_
    have hname : name ∈ ((Path.segments path).reverse.dropWhile (·.isEmpty)).reverse := by
      rw [hconcat]
      simp
    exact List.mem_reverse.mp (List.dropWhile_subset _ (List.mem_reverse.mp hname))

lemma makeFolder_isEdit (path : String) : (makeFolder path).IsEdit written := by
  unfold makeFolder
  refine .get fun d => ?_
  dsimp only
  split
  · exact .refl written d
  · rcases hparts : splitParts (Path.join d.workingDir path) with ⟨parents, name⟩
    dsimp only
    cases hfollow : d.root.follow maxLinks [] parents with
    | error => exact .refl written d
    | ok spot =>
      cases spot with
      | free => exact .refl written d
      | found place item =>
        cases item with
        | file | link => exact .refl written d
        | folder entries =>
          dsimp only
          split
          · exact .refl written d
          · rename_i hname
            simp only [Bool.or_eq_true, not_or, Bool.not_eq_true, Option.isSome_eq_false_iff,
              Option.isNone_iff_eq_none] at hname
            obtain ⟨hname, hfree⟩ := hname
            have hplace := (Item.leads_of_follow hfollow).get?_found
            rw [Item.lookup_eq_get? hplace] at hfree
            refine ⟨.makeFolder .refl (Item.view_eq_folder.mpr ⟨entries, hplace⟩) ?_
              (Item.view_eq_none.mpr hfree), rfl, rfl⟩
            have hslash := slash_notMem_splitParts (Path.join d.workingDir path)
            rw [hparts] at hslash
            simp_all [Item.isProper, Item.isName]

lemma ensureFolder_isEdit (path : String) : (ensureFolder path).IsEdit written := by
  refine .tryCatch (makeFolder_isEdit path) fun e => .get fun d => ?_
  split
  · exact .refl written d
  · exact .refl written d

lemma makeFoldersFrom_isEdit (n : Nat) (path : String) :
    (makeFoldersFrom n path).IsEdit written := by
  induction n generalizing path with
  | zero => exact ensureFolder_isEdit path
  | succ n ih =>
    unfold makeFoldersFrom
    generalize (if (Path.name path).isEmpty then _ else _) = split
    obtain ⟨parent, name⟩ := split
    refine .get fun d => ?_
    split
    · exact ensureFolder_isEdit path d
    · refine Action.IsEdit.bind (.tryCatch (ih parent) fun e => ?_) ?_ d
      · split
        · exact .pure
        · exact .throw e
      · split
        · exact ensureFolder_isEdit path
        · exact .pure

/-- A file is written where its path leads to, or nothing happens. -/
lemma write_run (path : String) (bytes : List UInt8) (time : Int) (d : Disk) :
    (∃ e, (write path bytes time).run.run d = (.error e, d)) ∨
    ∃ spot, d.locate path = .ok spot ∧ spot.isOpen ∧
      d.root.view spot.place ≠ some (.folder []) ∧
      (write path bytes time).run.run d =
        (.ok (), { d with root := d.root.set (.file bytes time) spot.place }) := by
  unfold write
  dsimp only
  rw [run_get]
  cases hspot : d.locate path with
  | error => exact .inl ⟨_, rfl⟩
  | ok spot =>
    obtain ⟨-, hleads⟩ := locate_eq_ok.mp hspot
    cases spot with
    | found place item =>
      by_cases hfolder : item.isFolder
      · cases item with
        | folder => exact .inl ⟨_, rfl⟩
        | file | link => cases hfolder
      · refine .inr ⟨_, rfl, rfl, fun hview => hfolder ?_, ?_⟩
        · obtain ⟨entries, hentries⟩ := Item.view_eq_folder.mp hview
          rw [Option.some.inj (hleads.get?_found.symm.trans hentries)]
          rfl
        · cases item with
          | folder => exact absurd rfl hfolder
          | file | link => rfl
    | free folder name asFolder =>
      cases asFolder with
      | true => exact .inl ⟨_, rfl⟩
      | false => exact .inr ⟨_, rfl, rfl, by simp [Item.Spot.place, hleads.view_free.2], rfl⟩

lemma segments_ne_nil (path : String) : Path.segments path ≠ [] := by
  unfold Path.segments Text.split
  cases path.toList with
  | nil => simp [Text.splitAt]
  | cons =>
    rw [Text.splitAt]
    split
    · simp
    · split <;> simp

lemma exists_above {spot : Item.Spot} (hspot : d.locate path = .ok spot)
    (hfolder : d.root.view spot.place ≠ some (.folder [])) :
    ∃ p name, spot.place = p ++ [name] ∧ d.root.view p = some (.folder []) ∧
      (d.root.view (p ++ [name]) = none → Item.isProper name) ∧
      ∀ target, d.root.view (p ++ [name]) ≠ some (.link target) := by
  obtain ⟨-, hleads⟩ := locate_eq_ok.mp hspot
  cases spot with
  | free folder name =>
    refine ⟨folder, name, rfl, hleads.view_free.1, fun _ => ?_, by simp [hleads.view_free.2]⟩
    exact hleads.isProper_free (Item.slash_notMem_segments _)
  | found place =>
    have hroot := hleads.start_folder (segments_ne_nil _)
    have hitem := Item.view_of_get? hleads.get?_found
    rcases List.eq_nil_or_concat place with rfl | ⟨p, name, rfl⟩
    · exact absurd hroot hfolder
    · rw [List.concat_eq_append] at hitem
      refine ⟨p, name, List.concat_eq_append, ?_, by simp [hitem], fun target hlink => ?_⟩
      · exact Item.view_folder_of_append (by rw [hitem]; simp) (List.cons_ne_nil _ _)
      · rw [hitem, Option.some_inj, Item.shape_eq_link] at hlink
        exact hleads.found_ne_link (by simp [hroot]) target hlink

lemma write_edited (path : String) (bytes : List UInt8) (time : Int) (d : Disk) :
    Edited (fun place => d.resolve path = some place) d ((write path bytes time).run.run d).2 := by
  rcases write_run path bytes time d with ⟨e, hrun⟩ | ⟨spot, hspot, -, hfolder, hrun⟩ <;> rw [hrun]
  · exact .refl _ d
  · obtain ⟨p, name, hplace, hparent, hname, hlink⟩ := exists_above hspot hfolder
    rw [hplace] at hfolder ⊢
    exact ⟨.write .refl hparent hname hfolder hlink (hplace ▸ resolve_of_locate hspot), rfl, rfl⟩

/-- After a file was written its path leads to it. -/
lemma locate_write {bytes : List UInt8} {time : Int}
    (h : ((write path bytes time).run.run d).1 = .ok ()) :
    ∃ place, d.resolve path = some place ∧
      ((write path bytes time).run.run d).2.locate path =
        .ok (.found place (.file bytes time)) := by
  have hedited := write_edited path bytes time d
  rcases write_run path bytes time d with ⟨e, hrun⟩ | ⟨spot, hspot, hopen, hfolder, hrun⟩
  · rw [hrun] at h
    cases h
  · rw [hrun] at hedited ⊢
    refine ⟨spot.place, resolve_of_locate hspot, hedited.locate hspot hopen ?_⟩
    obtain ⟨p, name, hplace, hparent, -⟩ := exists_above hspot hfolder
    rw [hplace] at hfolder ⊢
    refine Item.view_eq_file.mp ?_
    rw [Item.view_set rfl hparent hfolder, if_pos rfl]

/-- Writes a file and makes the folders above it. -/
def save (path : String) (bytes : List UInt8) (time : Int) : Action :=
  if (Path.folder path).isEmpty then write path bytes time
  else makeFolders (Path.folder path) >>= fun _ => write path bytes time

/-- A file is saved on a disk on which folders have been made. -/
lemma save_run (path : String) (bytes : List UInt8) (time : Int) (d : Disk) :
    ∃ d', Edited (fun _ => False) d d' ∧
      ((∃ e, (save path bytes time).run.run d = (.error e, d')) ∨
        (save path bytes time).run.run d = (write path bytes time).run.run d') := by
  unfold save
  split
  · exact ⟨d, .refl _ d, .inr rfl⟩
  · have hedited : Edited (fun _ => False) d _ :=
      makeFoldersFrom_isEdit (Path.folder path).length (Path.folder path) d
    rcases hrun : (makeFolders (Path.folder path)).run.run d with ⟨e | _, d'⟩ <;>
      rw [← makeFolders, hrun] at hedited
    all_goals
      refine ⟨d', hedited, ?_⟩
      rw [ExceptT.run_bind, StateT.run_bind, hrun]
    · exact .inl ⟨e, rfl⟩
    · exact .inr rfl

/-- Whether a file can be saved does not depend on its contents. -/
lemma save_result (path : String) (bytes bytes' : List UInt8) (time time' : Int) (d : Disk) :
    ((save path bytes time).run.run d).1 = ((save path bytes' time').run.run d).1 := by
  have hwrite (d : Disk) : ((write path bytes time).run.run d).1 =
      ((write path bytes' time').run.run d).1 := by
    unfold write
    dsimp only
    rw [run_get, run_get]
    cases d.locate path with
    | error => rfl
    | ok spot =>
      cases spot with
      | found place item => cases item <;> rfl
      | free folder name asFolder => cases asFolder <;> rfl
  unfold save
  split
  · exact hwrite d
  · rw [ExceptT.run_bind, StateT.run_bind, ExceptT.run_bind, StateT.run_bind]
    rcases (makeFolders (Path.folder path)).run.run d with ⟨e | _, d'⟩
    · rfl
    · exact hwrite d'

lemma save_edited (path : String) (bytes : List UInt8) (time : Int) (d : Disk) :
    Edited (fun place => d.resolve path = some place) d ((save path bytes time).run.run d).2 := by
  obtain ⟨d', hedited, ⟨e, hrun⟩ | hrun⟩ := save_run path bytes time d <;> rw [hrun]
  · exact hedited.mono fun _ => False.elim
  · have hwrite := write_edited path bytes time d'
    rw [hedited.resolve] at hwrite
    exact (hedited.mono fun _ => False.elim).trans hwrite

/-- After a file was saved its path leads to it. -/
lemma locate_save {bytes : List UInt8} {time : Int}
    (h : ((save path bytes time).run.run d).1 = .ok ()) :
    ∃ place, d.resolve path = some place ∧
      ((save path bytes time).run.run d).2.locate path = .ok (.found place (.file bytes time)) := by
  obtain ⟨d', hedited, ⟨e, hrun⟩ | hrun⟩ := save_run path bytes time d <;> rw [hrun] at h ⊢
  · cases h
  · rw [← hedited.resolve]
    exact locate_write h

end UiScript.Disk
