import Mathlib.Logic.Relation
import XgenSdk.Lib.Checks
import XgenSdk.Lib.Search
import XgenSdk.Storage.FolderZip

/-! The breadth-first walk of `plan_tree`, from its invariant to what the plan holds. -/
namespace XgenSdk.Storage.FolderZip
open Py (Json)
variable {κ ι : Type} {cf : CaseFolding} {idText : κ → String}
  {rootId : Option κ} {root : Name} {folders : List (FolderRow κ)} {files : List (FileRow κ ι)}

/-- A row with a parent leads from the parent to its own id. -/
def Linked (folders : List (FolderRow κ)) (parent child : Option κ) : Prop :=
  parent ≠ none ∧ ∃ row ∈ folders, row.parentId = parent ∧ child = some row.id

def Reachable (folders : List (FolderRow κ)) (rootId : Option κ) : Option κ → Prop :=
  Relation.ReflTransGen (Linked folders) rootId

/-- Directories as they are placed: each below an earlier one, by a row. -/
inductive Placed (folders : List (FolderRow κ)) (rootId : Option κ) (root : Name) :
    List (Option κ × Name) → Prop
  | root : Placed folders rootId root [(rootId, root)]
  | child {placed parent child seg} : Placed folders rootId root placed → parent ∈ placed →
      Linked folders parent.1 child → IsSafe seg →
      Placed folders rootId root (placed ++ [(child, under parent.2 seg)])

def Walk.paths (w : Walk κ ι) : List Name := w.dirs ++ w.files.map (·.arcname)

/-- What holds of the walk with the folders of `opened` behind it. -/
structure Walked (cf : CaseFolding) (folders : List (FolderRow κ)) (rootId : Option κ) (root : Name)
    (opened : List (Option κ × Name)) (w : Walk κ ι) : Prop where
  dirs : w.dirs = (opened ++ w.queue).map Prod.snd
  seen : w.seen = (opened ++ w.queue).map Prod.fst
  nodup : w.seen.Nodup
  placed : Placed folders rootId root (opened ++ w.queue)
  distinct : (w.paths.map cf.fold).Nodup
  inside : ∀ q ∈ w.paths, q = root ∨ ∃ p ∈ opened, ∃ seg, IsSafe seg ∧ q = under p.2 seg

/-- Names already below `d` are marked as used. -/
def Taken (cf : CaseFolding) (d : Option κ × Name) (used : List Name) (w : Walk κ ι) : Prop :=
  ∀ seg, IsSafe seg → under d.2 seg ∈ w.paths → cf.fold seg ∈ used

theorem under_inj {path seg seg' : Name} (h : under path seg = under path seg') : seg = seg' :=
  (List.cons.inj (List.append_cancel_left h)).2

theorem Walked.eq_of_fold {opened : List (Option κ × Name)} {w : Walk κ ι}
    (h : Walked cf folders rootId root opened w) {p d : Option κ × Name} (hp : p ∈ opened ++ w.queue)
    (hd : d ∈ opened ++ w.queue) (heq : cf.fold p.2 = cf.fold d.2) : p.2 = d.2 := by
  have hdirs : (w.dirs.map cf.fold).Nodup := by
    have hnodup := h.distinct
    rw [Walk.paths, List.map_append] at hnodup
    exact (List.nodup_append.mp hnodup).1
  have hmem : ∀ q ∈ opened ++ w.queue, q.2 ∈ w.dirs := by
    intro q hq
    rw [h.dirs]
    exact List.mem_map_of_mem hq
  exact List.inj_on_of_nodup_map hdirs (hmem p hp) (hmem d hd) heq

/-- A path below an open folder whose name is not used folds like no path so far. -/
theorem Walked.fresh {opened : List (Option κ × Name)} {w : Walk κ ι} {d : Option κ × Name}
    {used : List Name} {name : Name} (h : Walked cf folders rootId root opened w) (hroot : IsSafe root)
    (hd : d ∈ opened) (htaken : Taken cf d used w) (hname : IsSafe name) (hfree : cf.fold name ∉ used) :
    cf.fold (under d.2 name) ∉ w.paths.map cf.fold := by
  intro hmem
  obtain ⟨q, hq, heq⟩ := List.mem_map.mp hmem
  rw [fold_under] at heq
  have hroot' : '/' ∉ cf.fold root := slash_notMem_fold hroot.no_slash
  obtain rfl | ⟨p, hp, seg, hseg, rfl⟩ := h.inside q hq
  · refine hroot' ?_
    rw [heq]
    simp
  · rw [fold_under] at heq
    obtain ⟨hpath, hsegs⟩ :=
      split_last_inj (slash_notMem_fold hseg.no_slash) (slash_notMem_fold hname.no_slash) heq
    have hsame : p.2 = d.2 :=
      h.eq_of_fold (List.mem_append_left _ hp) (List.mem_append_left _ hd) hpath
    rw [hsame] at hq
    exact hfree (hsegs ▸ htaken seg hseg hq)

/-- Opening the folder in front of the queue: nothing lies below it yet. -/
theorem Walked.open_next {opened queue : List (Option κ × Name)} {w : Walk κ ι} {d : Option κ × Name}
    (h : Walked cf folders rootId root opened w) (hroot : IsSafe root) (hqueue : w.queue = d :: queue) :
    Walked cf folders rootId root (opened ++ [d]) { w with queue := queue } ∧
      Taken cf d [] { w with queue := queue } := by
  have hlist : opened ++ w.queue = opened ++ [d] ++ queue := by
    rw [hqueue]
    simp
  refine ⟨⟨?_, ?_, h.nodup, ?_, h.distinct, ?_⟩, ?_⟩
  · rw [← hlist]
    exact h.dirs
  · rw [← hlist]
    exact h.seen
  · rw [← hlist]
    exact h.placed
  · intro q hq
    obtain rfl | ⟨p, hp, seg, hseg, rfl⟩ := h.inside q hq
    · exact .inl rfl
    · exact .inr ⟨p, List.mem_append_left _ hp, seg, hseg, rfl⟩
  · intro seg hseg hq
    exfalso
    obtain heq | ⟨p, hp, seg', hseg', heq⟩ := h.inside _ hq
    · refine hroot.no_slash ?_
      rw [← heq, under]
      simp
    · -- an opened folder with the path of `d` would be `d`, which is still in the queue
      have hpath : d.2 = p.2 := (split_last_inj hseg.no_slash hseg'.no_slash heq).1
      have hdistinct : ((opened ++ w.queue).map Prod.snd).Nodup := by
        rw [← h.dirs]
        exact List.Nodup.of_append_left (List.Nodup.of_map _ h.distinct)
      rw [hqueue, List.map_append, List.map_cons] at hdistinct
      exact (List.nodup_append.mp hdistinct).2.2 p.2 (List.mem_map_of_mem hp) d.2 (by simp) hpath.symm

section Place
variable {opened : List (Option κ × Name)} {w : Walk κ ι} {d : Option κ × Name} {used : List Name}
  {name : Name}

theorem Taken.add {w w' : Walk κ ι} (h : Taken cf d used w)
    (hpaths : ∀ q ∈ w'.paths, q ∈ w.paths ∨ q = under d.2 name) :
    Taken cf d (cf.fold name :: used) w' := by
  intro seg hseg hq
  obtain hq | heq := hpaths _ hq
  · exact List.mem_cons_of_mem _ (h seg hseg hq)
  · rw [under_inj heq]
    exact List.mem_cons_self

theorem Walked.add_folder (h : Walked cf folders rootId root opened w) (hroot : IsSafe root)
    (hd : d ∈ opened) (htaken : Taken cf d used w) (hname : IsSafe name) (hfree : cf.fold name ∉ used)
    {id : κ} (hlink : Linked folders d.1 (some id)) (hid : some id ∉ w.seen) :
    let w' : Walk κ ι := { w with
      seen := w.seen ++ [some id]
      dirs := w.dirs ++ [under d.2 name]
      queue := w.queue ++ [(some id, under d.2 name)] }
    Walked cf folders rootId root opened w' ∧ Taken cf d (cf.fold name :: used) w' := by
  intro w'
  have hpaths : w'.paths.Perm (under d.2 name :: w.paths) := by
    change (w.dirs ++ [under d.2 name] ++ w.files.map (·.arcname)).Perm _
    rw [List.append_assoc]
    exact List.perm_middle
  have hmem : ∀ q ∈ w'.paths, q ∈ w.paths ∨ q = under d.2 name :=
    fun q hq => (List.mem_cons.mp (hpaths.mem_iff.mp hq)).symm
  refine ⟨⟨?_, ?_, ?_, ?_, ?_, ?_⟩, htaken.add hmem⟩
  · change w.dirs ++ [under d.2 name] = (opened ++ (w.queue ++ [(some id, under d.2 name)])).map Prod.snd
    rw [← List.append_assoc, List.map_append, ← h.dirs]
    rfl
  · change w.seen ++ [some id] = (opened ++ (w.queue ++ [(some id, under d.2 name)])).map Prod.fst
    rw [← List.append_assoc, List.map_append, ← h.seen]
    rfl
  · exact List.nodup_append.mpr ⟨h.nodup, by simp, by
      intro a ha b hb hab
      rw [List.mem_singleton.mp hb] at hab
      exact hid (hab ▸ ha)⟩
  · change Placed folders rootId root (opened ++ (w.queue ++ [(some id, under d.2 name)]))
    rw [← List.append_assoc]
    exact h.placed.child (List.mem_append_left _ hd) hlink hname
  · have hfold := h.fresh hroot hd htaken hname hfree
    refine (hpaths.map cf.fold).nodup_iff.mpr ?_
    rw [List.map_cons]
    exact List.nodup_cons.mpr ⟨hfold, h.distinct⟩
  · intro q hq
    obtain hq | rfl := hmem q hq
    · exact h.inside q hq
    · exact .inr ⟨d, hd, name, hname, rfl⟩

theorem Walked.add_file (h : Walked cf folders rootId root opened w) (hroot : IsSafe root)
    (hd : d ∈ opened) (htaken : Taken cf d used w) (hname : IsSafe name) (hfree : cf.fold name ∉ used)
    (item : ι) :
    let w' : Walk κ ι := { w with files := w.files ++ [⟨under d.2 name, item⟩] }
    Walked cf folders rootId root opened w' ∧ Taken cf d (cf.fold name :: used) w' := by
  intro w'
  have hpaths : w'.paths = w.paths ++ [under d.2 name] := by
    change w.dirs ++ (w.files ++ [(⟨under d.2 name, item⟩ : ZipFileEntry ι)]).map ZipFileEntry.arcname = _
    rw [List.map_append, ← List.append_assoc]
    rfl
  have hmem : ∀ q ∈ w'.paths, q ∈ w.paths ∨ q = under d.2 name := by
    intro q hq
    rw [hpaths] at hq
    exact (List.mem_append.mp hq).imp_right List.mem_singleton.mp
  refine ⟨⟨h.dirs, h.seen, h.nodup, h.placed, ?_, ?_⟩, htaken.add hmem⟩
  · have hfold := h.fresh hroot hd htaken hname hfree
    rw [hpaths, List.map_append]
    exact List.nodup_append.mpr ⟨h.distinct, by simp, by
      intro a ha b hb hab
      rw [List.map_singleton, List.mem_singleton] at hb
      exact hfold (hb ▸ hab ▸ ha)⟩
  · intro q hq
    obtain hq | rfl := hmem q hq
    · exact h.inside q hq
    · exact .inr ⟨d, hd, name, hname, rfl⟩

end Place

theorem folder_safe : IsSafe "folder".toList :=
  ⟨by decide, by decide, by decide, Search.forall_mem_of_all (by decide)⟩

theorem file_safe : IsSafe "file".toList :=
  ⟨by decide, by decide, by decide, Search.forall_mem_of_all (by decide)⟩

section Fill
variable {opened : List (Option κ × Name)} {d : Option κ × Name}

/-- What an entry of the plan is for its row. -/
def EntryFor (opened : List (Option κ × Name)) (f : FileRow κ ι) (e : ZipFileEntry ι) : Prop :=
  e.item = f.item ∧ ∃ d ∈ opened, d.1 = f.folderId ∧ ∃ seg, IsSafe seg ∧ e.arcname = under d.2 seg

/-- The files of a folder: one entry a row, in order. -/
theorem placeFiles_ok (hroot : IsSafe root) (hd : d ∈ opened) (rows : List (FileRow κ ι))
    (hrows : ∀ f ∈ rows, f.folderId = d.1) {used : List Name} {w w' : Walk κ ι}
    (h : Walked cf folders rootId root opened w) (htaken : Taken cf d used w)
    (hok : placeFiles cf d.2 rows used w = .ok w') :
    Walked cf folders rootId root opened w' ∧ w'.seen = w.seen ∧ w'.queue = w.queue ∧
      ∃ added, w'.files = w.files ++ added ∧ List.Forall₂ (EntryFor opened) rows added := by
  induction rows generalizing used w with
  | nil =>
    rw [← Except.ok.inj hok]
    exact ⟨h, rfl, rfl, [], by simp, .nil⟩
  | cons f rest ih =>
    unfold placeFiles at hok
    cases hname : uniqueName cf (safeName f.name "file".toList) used true with
    | error e =>
      rw [hname] at hok
      cases hok
    | ok named =>
      rw [hname] at hok
      obtain ⟨hsafe, hfree, hused⟩ := uniqueName_ok hname (safeName_safe _ file_safe)
      obtain ⟨hwalked, htaken'⟩ := h.add_file hroot hd htaken hsafe hfree f.item
      rw [← hused] at htaken'
      obtain ⟨hwalked', hseen, hqueue, added, hfiles, hadded⟩ :=
        ih (fun g hg => hrows g (List.mem_cons_of_mem _ hg)) hwalked htaken' hok
      refine ⟨hwalked', hseen, hqueue, ⟨under d.2 named.1, f.item⟩ :: added, ?_, .cons ?_ hadded⟩
      · rw [hfiles]
        simp
      · exact ⟨rfl, d, hd, (hrows f List.mem_cons_self).symm, named.1, hsafe, rfl⟩

theorem EntryFor.mono {opened opened' : List (Option κ × Name)} (hsub : opened ⊆ opened') {f : FileRow κ ι}
    {e : ZipFileEntry ι} (h : EntryFor opened f e) : EntryFor opened' f e := by
  obtain ⟨hitem, d, hd, hrest⟩ := h
  exact ⟨hitem, d, hsub hd, hrest⟩

variable [DecidableEq κ]

/-- The folders of a folder: every row's id is seen, the files stay. -/
theorem placeFolders_ok (hroot : IsSafe root) (hd : d ∈ opened) (rows : List (FolderRow κ))
    (hrows : ∀ row ∈ rows, Linked folders d.1 (some row.id)) {used : List Name} {w : Walk κ ι}
    {result : List Name × Walk κ ι} (h : Walked cf folders rootId root opened w) (htaken : Taken cf d used w)
    (hok : placeFolders cf d.2 rows used w = .ok result) :
    Walked cf folders rootId root opened result.2 ∧ Taken cf d result.1 result.2 ∧
      result.2.files = w.files ∧ w.seen ⊆ result.2.seen ∧ ∀ row ∈ rows, some row.id ∈ result.2.seen := by
  induction rows generalizing used w with
  | nil =>
    rw [← Except.ok.inj hok]
    exact ⟨h, htaken, rfl, List.Subset.refl _, by simp⟩
  | cons row rest ih =>
    have hrest : ∀ row ∈ rest, Linked folders d.1 (some row.id) :=
      fun row hrow => hrows row (List.mem_cons_of_mem _ hrow)
    unfold placeFolders at hok
    by_cases hseen : some row.id ∈ w.seen
    · rw [if_pos hseen] at hok
      obtain ⟨hwalked, htaken', hfiles, hsub, hall⟩ := ih hrest h htaken hok
      refine ⟨hwalked, htaken', hfiles, hsub, fun other hother => ?_⟩
      obtain rfl | hother := List.mem_cons.mp hother
      · exact hsub hseen
      · exact hall other hother
    · rw [if_neg hseen] at hok
      cases hname : uniqueName cf (safeName row.name "folder".toList) used false with
      | error e =>
        rw [hname] at hok
        cases hok
      | ok named =>
        rw [hname] at hok
        obtain ⟨hsafe, hfree, hused⟩ := uniqueName_ok hname (safeName_safe _ folder_safe)
        obtain ⟨hwalked, htaken'⟩ := h.add_folder hroot hd htaken hsafe hfree
          (hrows row List.mem_cons_self) hseen
        rw [← hused] at htaken'
        obtain ⟨hwalked', htaken'', hfiles, hsub, hall⟩ := ih hrest hwalked htaken' hok
        refine ⟨hwalked', htaken'', hfiles, fun id hid => hsub (List.mem_append_left _ hid), fun other hother => ?_⟩
        obtain rfl | hother := List.mem_cons.mp hother
        · exact hsub (by simp)
        · exact hall other hother

/-- The opened folders are done with: their children are seen, their files have entries. -/
structure Finished (rootId : Option κ) (folders : List (FolderRow κ)) (files : List (FileRow κ ι))
    (opened : List (Option κ × Name)) (w : Walk κ ι) : Prop where
  children : ∀ p ∈ opened, ∀ row ∈ childrenOf rootId folders p.1, some row.id ∈ w.seen
  entries : List.Forall₂ (EntryFor opened) (opened.flatMap fun p => filesIn files p.1) w.files

theorem linked_of_mem_childrenOf {p : Option κ} {row : FolderRow κ} (h : row ∈ childrenOf rootId folders p) :
    Linked folders p (some row.id) := by
  obtain ⟨hmem, hcond⟩ := List.mem_filter.mp h
  obtain ⟨-, hparent, heq⟩ := of_decide_eq_true hcond
  exact ⟨heq ▸ hparent, row, hmem, heq, rfl⟩

/-- One round of the loop opens the folder in front of the queue. -/
theorem round_ok (hroot : IsSafe root) {queue : List (Option κ × Name)} {w : Walk κ ι}
    (h : Walked cf folders rootId root opened w) (hdone : Finished rootId folders files opened w)
    (hqueue : w.queue = d :: queue) {used : List Name} {placed w' : Walk κ ι}
    (hfolders : placeFolders cf d.2 (sortedChildren idText (childrenOf rootId folders d.1)) []
      { w with queue := queue } = .ok (used, placed))
    (hfiles : placeFiles cf d.2 (filesIn files d.1) used placed = .ok w') :
    Walked cf folders rootId root (opened ++ [d]) w' ∧ Finished rootId folders files (opened ++ [d]) w' := by
  have hd : d ∈ opened ++ [d] := by simp
  have hsorted : ∀ row, row ∈ sortedChildren idText (childrenOf rootId folders d.1) ↔
      row ∈ childrenOf rootId folders d.1 := fun row => (List.perm_insertionSort _ _).mem_iff
  obtain ⟨hopen, htaken⟩ := h.open_next hroot hqueue
  obtain ⟨hplaced, htaken', hsame, hsub, hall⟩ := placeFolders_ok hroot hd _
    (fun row hrow => linked_of_mem_childrenOf ((hsorted row).mp hrow)) hopen htaken hfolders
  obtain ⟨hwalked, hseen, -, added, hadded, hentries⟩ := placeFiles_ok hroot hd _
    (fun f hf => of_decide_eq_true (List.mem_filter.mp hf).2) hplaced htaken' hfiles
  refine ⟨hwalked, ⟨fun p hp row hrow => ?_, ?_⟩⟩
  · rw [hseen]
    obtain hp | hp := List.mem_append.mp hp
    · exact hsub (hdone.children p hp row hrow)
    · rw [List.mem_singleton.mp hp] at hrow
      exact hall row ((hsorted row).mpr hrow)
  · rw [hadded, hsame, List.flatMap_append, List.flatMap_singleton]
    refine List.rel_append ?_ hentries
    exact hdone.entries.imp fun f e he => he.mono (List.subset_append_left _ _)

/-- The walk keeps its invariant to the end, which comes before the rows run out. -/
theorem walk_ok (hroot : IsSafe root) (fuel : Nat) {opened : List (Option κ × Name)} {w : Walk κ ι}
    {result : Option (Walk κ ι)} (h : Walked cf folders rootId root opened w)
    (hdone : Finished rootId folders files opened w)
    (hok : walk cf idText rootId folders files fuel w = .ok result) :
    ∃ opened' w', Walked cf folders rootId root opened' w' ∧ Finished rootId folders files opened' w' ∧
      (result = some w' ∧ w'.queue = [] ∨
        result = none ∧ opened'.length = opened.length + fuel ∧ w'.queue ≠ []) := by
  induction fuel generalizing opened w with
  | zero =>
    unfold walk at hok
    split at hok
    · rename_i hqueue
      exact ⟨opened, w, h, hdone, .inl ⟨(Except.ok.inj hok).symm, hqueue⟩⟩
    · rename_i hqueue
      refine ⟨opened, w, h, hdone, .inr ⟨(Except.ok.inj hok).symm, rfl, ?_⟩⟩
      rw [hqueue]
      exact List.cons_ne_nil _ _
  | succ fuel ih =>
    unfold walk at hok
    split at hok
    · rename_i hqueue
      exact ⟨opened, w, h, hdone, .inl ⟨(Except.ok.inj hok).symm, hqueue⟩⟩
    · rename_i folderId path queue hqueue
      dsimp only at hok
      cases hfolders : placeFolders cf path (sortedChildren idText (childrenOf rootId folders folderId)) []
          { w with queue := queue } with
      | error e =>
        rw [hfolders] at hok
        cases hok
      | ok placed =>
        rw [hfolders] at hok
        cases hfiles : placeFiles cf path (filesIn files folderId) placed.1 placed.2 with
        | error e =>
          change (placeFiles cf path (filesIn files folderId) placed.1 placed.2 >>= _) = _ at hok
          rw [hfiles] at hok
          cases hok
        | ok next =>
          change (placeFiles cf path (filesIn files folderId) placed.1 placed.2 >>= _) = _ at hok
          rw [hfiles] at hok
          obtain ⟨hwalked, hfinished⟩ := round_ok (d := (folderId, path)) hroot h hdone hqueue hfolders hfiles
          obtain ⟨opened', w', hw, hf, hresult⟩ := ih hwalked hfinished hok
          refine ⟨opened', w', hw, hf, hresult.imp_right fun ⟨hnone, hlen, hne⟩ => ⟨hnone, ?_, hne⟩⟩
          rw [hlen, List.length_append, List.length_singleton]
          omega

end Fill

theorem Placed.shape {placed : List (Option κ × Name)} (h : Placed folders rootId root placed)
    {before after : List (Option κ × Name)} {entry : Option κ × Name} (hsplit : placed = before ++ entry :: after) :
    before = [] ∧ entry = (rootId, root) ∨ ∃ parent ∈ before, ∃ seg, IsSafe seg ∧
      entry.2 = under parent.2 seg ∧ Linked folders parent.1 entry.1 := by
  induction h generalizing after with
  | root =>
    cases before with
    | nil => exact .inl ⟨rfl, (List.cons.inj hsplit).1.symm⟩
    | cons x xs => simp at hsplit
  | child hplaced hparent hlink hseg ih =>
    obtain rfl | ⟨after', last, rfl⟩ := List.eq_nil_or_concat after
    · obtain ⟨rfl, hlast⟩ := List.append_inj' hsplit rfl
      obtain rfl := (List.cons.inj hlast).1
      exact .inr ⟨_, hparent, _, hseg, rfl, hlink⟩
    · rw [List.concat_eq_append, ← List.cons_append, ← List.append_assoc] at hsplit
      exact ih (List.append_inj' hsplit rfl).1

theorem Placed.reachable {placed : List (Option κ × Name)} (h : Placed folders rootId root placed) :
    ∀ p ∈ placed, Reachable folders rootId p.1 := by
  induction h with
  | root =>
    intro p hp
    rw [List.mem_singleton.mp hp]
    exact .refl
  | child hplaced hparent hlink hseg ih =>
    intro p hp
    obtain hp | hp := List.mem_append.mp hp
    · exact ih p hp
    · rw [List.mem_singleton.mp hp]
      exact (ih _ hparent).tail hlink

theorem Placed.root_mem {placed : List (Option κ × Name)} (h : Placed folders rootId root placed) :
    (rootId, root) ∈ placed := by
  induction h with
  | root => exact List.mem_singleton_self _
  | child hplaced hparent hlink hseg ih => exact List.mem_append_left _ ih

/-- Only the root and the rows can be placed, each once. -/
theorem Walked.length_le {opened : List (Option κ × Name)} {w : Walk κ ι}
    (h : Walked cf folders rootId root opened w) : (opened ++ w.queue).length ≤ folders.length + 1 := by
  have hsub : w.seen ⊆ rootId :: folders.map fun row => some row.id := by
    intro id hid
    rw [h.seen] at hid
    obtain ⟨p, hp, rfl⟩ := List.mem_map.mp hid
    obtain heq | ⟨parent, -, -, row, hrow, -, hchild⟩ := (h.placed.reachable p hp).cases_tail
    · rw [heq]
      exact List.mem_cons_self
    · rw [hchild]
      exact List.mem_cons_of_mem _ (List.mem_map.mpr ⟨row, hrow, rfl⟩)
  have hlen := (List.subperm_of_subset h.nodup hsub).length_le
  rw [h.seen] at hlen
  simpa using hlen

theorem Walked.start (cf : CaseFolding) (folders : List (FolderRow κ)) (rootId : Option κ) (root : Name) :
    Walked cf folders rootId root [] (⟨[(rootId, root)], [rootId], [root], []⟩ : Walk κ ι) :=
  ⟨rfl, rfl, by simp, .root, by simp [Walk.paths], fun q hq => .inl (by simpa [Walk.paths] using hq)⟩

section Plan
variable [DecidableEq κ]

/-- Rows taken folder by folder are the rows of these folders. -/
theorem flatMap_filesIn_perm (files : List (FileRow κ ι)) (opened : List (Option κ × Name))
    (hnodup : (opened.map Prod.fst).Nodup) :
    (opened.flatMap fun p => filesIn files p.1).Perm
      (files.filter fun f => f.folderId ∈ opened.map Prod.fst) := by
  induction opened with
  | nil => simp
  | cons p rest ih =>
    obtain ⟨hnot, hrest⟩ := List.nodup_cons.mp hnodup
    have hsplit := List.filter_append_perm (fun f : FileRow κ ι => decide (f.folderId = p.1))
      (files.filter fun f => f.folderId ∈ (p :: rest).map Prod.fst)
    rw [List.filter_filter, List.filter_filter] at hsplit
    have hfirst : (files.filter fun f => decide (f.folderId = p.1) &&
        decide (f.folderId ∈ (p :: rest).map Prod.fst)) = filesIn files p.1 := by
      refine List.filter_congr fun f _ => ?_
      by_cases hf : f.folderId = p.1 <;> simp [hf]
    have hsecond : (files.filter fun f => (!decide (f.folderId = p.1)) &&
        decide (f.folderId ∈ (p :: rest).map Prod.fst)) =
          files.filter fun f => f.folderId ∈ rest.map Prod.fst := by
      refine List.filter_congr fun f _ => ?_
      by_cases hf : f.folderId = p.1
      · rw [hf]
        simpa using hnot
      · simp [hf]
    rw [hfirst, hsecond] at hsplit
    rw [List.flatMap_cons]
    exact ((ih hrest).append_left _).trans hsplit

/-- A plan with the directories `placed` behind it, each with its folder's id. -/
structure Sound (cf : CaseFolding) (rootId : Option κ) (folders : List (FolderRow κ))
    (files : List (FileRow κ ι)) (plan : ZipPlan ι) (placed : List (Option κ × Name)) : Prop where
  root_safe : IsSafe plan.root
  dirs : plan.dirs = placed.map Prod.snd
  shape : ∀ before entry after, placed = before ++ entry :: after →
    before = [] ∧ entry = (rootId, plan.root) ∨ ∃ parent ∈ before, ∃ seg, IsSafe seg ∧
      entry.2 = under parent.2 seg ∧ Linked folders parent.1 entry.1
  reached : ∀ id, Reachable folders rootId id ↔ id ∈ placed.map Prod.fst
  once : (placed.map Prod.fst).Nodup
  entries : ∃ rows, rows.Perm (files.filter fun f => f.folderId ∈ placed.map Prod.fst) ∧
    List.Forall₂ (EntryFor placed) rows plan.files
  distinct : ((plan.dirs ++ plan.files.map (·.arcname)).map cf.fold).Nodup

/-- A finished walk has opened all that is reachable. -/
theorem Walked.reached {opened : List (Option κ × Name)} {w : Walk κ ι}
    (h : Walked cf folders rootId root opened w) (hdone : Finished rootId folders files opened w)
    (hempty : w.queue = []) (id : Option κ) : Reachable folders rootId id ↔ id ∈ opened.map Prod.fst := by
  have hseen : w.seen = opened.map Prod.fst := by
    rw [h.seen, hempty, List.append_nil]
  have hplaced := h.placed
  rw [hempty, List.append_nil] at hplaced
  constructor
  · intro hreach
    induction hreach with
    | refl => exact List.mem_map.mpr ⟨_, hplaced.root_mem, rfl⟩
    | tail _ hlink ih =>
      obtain ⟨hnone, row, hrow, hparent, rfl⟩ := hlink
      by_cases hroot : some row.id = rootId
      · rw [hroot]
        exact List.mem_map.mpr ⟨_, hplaced.root_mem, rfl⟩
      · obtain ⟨p, hp, rfl⟩ := List.mem_map.mp ih
        rw [← hseen]
        refine hdone.children p hp row (List.mem_filter.mpr ⟨hrow, decide_eq_true ⟨hroot, ?_, hparent⟩⟩)
        rw [hparent]
        exact hnone
  · intro hmem
    obtain ⟨p, hp, rfl⟩ := List.mem_map.mp hmem
    exact hplaced.reachable p hp

/-- Behind a plan there is a finished walk; where there is none, the fuel is used up. -/
theorem planTree_walked {rootName : Json} {maxFiles maxBytes : Int} {fuel : Nat} {result : Option (ZipPlan ι)}
    (hok : planTree cf idText fuel rootId rootName folders files maxFiles maxBytes = .ok result) :
    ∃ opened w total, Walked cf folders rootId (safeName rootName "folder".toList) opened w ∧
      Finished rootId folders files opened w ∧
      (result = some ⟨safeName rootName "folder".toList, w.dirs, w.files, total⟩ ∧ w.queue = [] ∨
        result = none ∧ opened.length = fuel ∧ w.queue ≠ []) := by
  have hdone : Finished rootId folders files []
      (⟨[(rootId, safeName rootName "folder".toList)], [rootId], [safeName rootName "folder".toList], []⟩ :
        Walk κ ι) := ⟨by simp, .nil⟩
  obtain ⟨total, -, hok⟩ := Checks.bind_ok hok
  obtain ⟨-, -, hok⟩ := Checks.bind_ok hok
  obtain ⟨walked, hwalk, hok⟩ := Checks.bind_ok hok
  obtain ⟨opened, w, hw, hf, hresult⟩ :=
    walk_ok (safeName_safe rootName folder_safe) fuel (Walked.start cf folders rootId _) hdone hwalk
  refine ⟨opened, w, total, hw, hf, ?_⟩
  obtain ⟨rfl, hempty⟩ | ⟨rfl, hlen, hne⟩ := hresult
  · exact .inl ⟨(Except.ok.inj hok).symm, hempty⟩
  · exact .inr ⟨(Except.ok.inj hok).symm, by simpa using hlen, hne⟩

/-- The loop ends within one round for each row and one for the root, and
whatever plan comes back is sound. -/
theorem planTree_sound (cf : CaseFolding) (idText : κ → String) (rootId : Option κ) (rootName : Json)
    (folders : List (FolderRow κ)) (files : List (FileRow κ ι)) (maxFiles maxBytes : Int) :
    (∀ fuel, folders.length < fuel →
      planTree cf idText fuel rootId rootName folders files maxFiles maxBytes ≠ .ok none) ∧
    ∀ fuel plan, planTree cf idText fuel rootId rootName folders files maxFiles maxBytes = .ok (some plan) →
      ∃ placed, Sound cf rootId folders files plan placed := by
  constructor
  · intro fuel hfuel hok
    obtain ⟨opened, w, total, hw, -, ⟨hsome, -⟩ | ⟨-, hlen, hne⟩⟩ := planTree_walked hok
    · cases hsome
    · have hle := hw.length_le
      have hpos := List.length_pos_iff.mpr hne
      rw [List.length_append] at hle
      omega
  · intro fuel plan hok
    obtain ⟨opened, w, total, hw, hf, ⟨hsome, hempty⟩ | ⟨hnone, -⟩⟩ := planTree_walked hok
    · obtain rfl := Option.some.inj hsome
      have hplaced := hw.placed
      have hseen := hw.seen
      have hdirs := hw.dirs
      rw [hempty, List.append_nil] at hplaced hseen hdirs
      have honce : (opened.map Prod.fst).Nodup := hseen ▸ hw.nodup
      exact ⟨opened, safeName_safe rootName folder_safe, hdirs, fun before entry after => hplaced.shape, hw.reached hf hempty, honce,
        ⟨_, flatMap_filesIn_perm files opened honce, hf.entries⟩, hw.distinct⟩
    · cases hnone

def upperLower : List (Char × Char) :=
  "ABCDEFGHIJKLMNOPQRSTUVWXYZ".toList.zip "abcdefghijklmnopqrstuvwxyz".toList

/-- Case folding on ASCII. -/
def asciiFolding : CaseFolding where
  foldChar := fun c => [((upperLower.find? (·.1 = c)).map Prod.snd).getD c]
  slash := by decide
  slash_only := by
    intro c h
    have hletters : ∀ p ∈ upperLower, p.2 ≠ '/' := by decide
    rw [List.mem_singleton] at h
    cases hfind : upperLower.find? (·.1 = c) with
    | none =>
      rw [hfind] at h
      exact h.symm
    | some p =>
      rw [hfind] at h
      exact absurd h.symm (hletters p (List.mem_of_find?_eq_some hfind))

/-- Two folders and a file whose names fold alike, and a row that closes a cycle. -/
theorem planTree_sound_cycle :
    ∃ placed, Sound asciiFolding (some 0)
      [⟨1, some 0, .str "Docs"⟩, ⟨2, some 0, .str "docs"⟩, ⟨1, some 2, .str "again"⟩]
      [⟨some 0, .str "DOCS", .int 3, "file"⟩]
      ⟨"r".toList, ["r".toList, "r/Docs".toList, "r/docs (2)".toList], [⟨"r/DOCS (3)".toList, "file"⟩], 3⟩
      placed :=
  (planTree_sound asciiFolding (fun id : Nat => toString id) (some 0) (.str "r") _ _ 10 10).2 4 _ (by rfl)

end Plan

end XgenSdk.Storage.FolderZip
