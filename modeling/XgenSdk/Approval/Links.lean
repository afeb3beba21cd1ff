import XgenSdk.Approval.Lines

/-! Lines and the lines that follow them: however they are edited, a line that
is followed by others is followed by none that has followers itself. -/
namespace XgenSdk.Links
open XgenSdk.Models XgenSdk.Tables XgenSdk.Lines

/-! The links between lines, apart from everything else in the tables. -/

structure Link where
  id : Nat
  required : Bool
  ids : List Nat

/-- Ids are fresh and distinct, and every follower exists and has no followers. -/
structure Linked (next : Nat) (links : List Link) : Prop where
  fresh : ∀ l ∈ links, l.id < next
  distinct : (links.map Link.id).Nodup
  followers : ∀ l ∈ links, l.required = true → ∀ i ∈ l.ids, ∃ m ∈ links, m.id = i ∧ m.required = false

def setLink (id : Nat) (required : Bool) (ids : List Nat) (links : List Link) : List Link :=
  links.map fun l => if l.id = id then { l with required := required, ids := ids } else l

/-- A line of this id may get these followers. -/
def Allowed (id : Nat) (required : Bool) (ids : List Nat) (links : List Link) : Prop :=
  required = true → (∀ i ∈ ids, i ≠ id ∧ ∃ m ∈ links, m.id = i ∧ m.required = false) ∧
    ∀ l ∈ links, l.required = true → l.id ≠ id → id ∉ l.ids

theorem Linked.eq_of_id {next : Nat} {links : List Link} (h : Linked next links) {l m : Link}
    (hl : l ∈ links) (hm : m ∈ links) (he : l.id = m.id) : l = m :=
  List.inj_on_of_nodup_map h.distinct hl hm he

theorem Linked.not_both {next : Nat} {links : List Link} (h : Linked next links) {l m : Link}
    (hl : l ∈ links) (hm : m ∈ links) (hreq : l.required = true) (hids : m.id ∈ l.ids) :
    m.required = false := by
  obtain ⟨m', hm', hid, hnot⟩ := h.followers l hl hreq m.id hids
  rwa [h.eq_of_id hm hm' hid.symm]

theorem Linked.add {next : Nat} {links : List Link} (h : Linked next links) :
    Linked (next + 1) (links ++ [⟨next, false, []⟩]) := by
  refine ⟨?_, ?_, ?_⟩
  · intro l hl
    obtain hl | hl := List.mem_append.mp hl
    · exact (h.fresh l hl).trans (Nat.lt_succ_self next)
    · rw [List.mem_singleton.mp hl]
      exact Nat.lt_succ_self next
  · rw [List.map_append, List.nodup_append]
    refine ⟨h.distinct, List.nodup_singleton _, ?_⟩
    intro a ha b hb
    obtain ⟨l, hl, rfl⟩ := List.mem_map.mp ha
    obtain rfl := List.mem_singleton.mp hb
    exact (h.fresh l hl).ne
  · intro l hl hreq i hi
    obtain hl | hl := List.mem_append.mp hl
    · obtain ⟨m, hm, hid, hnot⟩ := h.followers l hl hreq i hi
      exact ⟨m, List.mem_append_left _ hm, hid, hnot⟩
    · rw [List.mem_singleton.mp hl] at hreq
      cases hreq

theorem Linked.set {next : Nat} {links : List Link} (h : Linked next links) {id : Nat}
    {required : Bool} {ids : List Nat} (hok : Allowed id required ids links) :
    Linked next (setLink id required ids links) := by
  have hid (l : Link) : (if l.id = id then { l with required := required, ids := ids } else l).id =
      l.id := by split <;> rfl
  have hids : (setLink id required ids links).map Link.id = links.map Link.id := by
    rw [setLink, List.map_map]
    exact List.map_congr_left fun l _ => hid l
  refine ⟨?_, hids ▸ h.distinct, ?_⟩
  · intro l hl
    obtain ⟨m, hm, rfl⟩ := List.mem_map.mp hl
    rw [hid m]
    exact h.fresh m hm
  · -- a follower that stays one is not the line that changes, or that line has no followers now
    have hkeep (i : Nat) (hi : required = true → i ≠ id)
        (hex : ∃ m ∈ links, m.id = i ∧ m.required = false) :
        ∃ m ∈ setLink id required ids links, m.id = i ∧ m.required = false := by
      obtain ⟨m, hm, hmi, hnot⟩ := hex
      refine ⟨_, List.mem_map_of_mem hm, (hid m).trans hmi, ?_⟩
      split
      · rename_i hmid
        cases required with
        | false => rfl
        | true => exact absurd (hmi.symm.trans hmid) (hi rfl)
      · exact hnot
    intro l hl hreq i hi
    obtain ⟨m, hm, rfl⟩ := List.mem_map.mp hl
    by_cases hmid : m.id = id
    · rw [if_pos hmid] at hreq hi
      obtain ⟨hne, hex⟩ := (hok hreq).1 i hi
      exact hkeep i (fun _ => hne) hex
    · rw [if_neg hmid] at hreq hi
      refine hkeep i ?_ (h.followers m hm hreq i hi)
      intro htrue hii
      subst hii
      exact (hok htrue).2 m hm hreq hmid hi

/-! The tables. -/

def linkOf (l : Line) : Link := ⟨l.id, l.followupRequired, l.followupLineIds⟩

def linksOf (config : Config) : List Link := config.lines.map linkOf

def LinksOk (o : Office) : Prop := Linked o.nextLine (linksOf o.toConfig)

theorem linksOf_onLine {f : Line → Line} (hf : ∀ l, linkOf (f l) = linkOf l) (lineId : Nat)
    (o : Office) : linksOf (onLine lineId f o).toConfig = linksOf o.toConfig := by
  simp only [linksOf, onLine, List.map_map]
  refine List.map_congr_left fun l _ => ?_
  simp only [Function.comp]
  split
  · exact hf l
  · rfl

theorem linksOf_setLink (lineId : Nat) (required : Bool) (ids : List Nat) (o : Office) :
    linksOf (onLine lineId (fun l => { l with followupRequired := required, followupLineIds := ids })
      o).toConfig = setLink lineId required ids (linksOf o.toConfig) := by
  simp only [linksOf, onLine, setLink, List.map_map]
  refine List.map_congr_left fun l _ => ?_
  by_cases hl : l.id = lineId
  · simp [linkOf, hl]
  · simp [linkOf, hl]

/-- What `validateConfig` accepts. -/
theorem checkAllowed_ok {config : Config} {sourceId : Option Nat} {kept ids : List Nat}
    (h : checkAllowed config sourceId kept ids = .ok ()) :
    ∀ i ∈ ids, sourceId ≠ some i ∧ (i ∈ kept ∨
      ∃ line, getLine config i = some line ∧ line.followupRequired = false) := by
  induction ids with
  | nil => simp
  | cons lineId rest ih =>
    simp only [checkAllowed] at h
    split at h
    · cases h
    rename_i hown
    have hhead : (lineId ∈ kept ∨
        ∃ line, getLine config lineId = some line ∧ line.followupRequired = false) ∧
        checkAllowed config sourceId kept rest = .ok () := by
      split at h
      · rename_i hkept
        exact ⟨Or.inl (by simpa using hkept), h⟩
      · cases hc : loadCandidate config lineId with
        | error e => simp [hc] at h
        | ok candidate =>
          simp only [hc] at h
          cases he : candidateError candidate sourceId with
          | some text => simp [he, raise] at h
          | none =>
            simp only [he] at h
            refine ⟨Or.inr ?_, h⟩
            unfold loadCandidate at hc
            split at hc
            · cases hc
            · rename_i line hline
              cases hc
              exact ⟨line, hline, (candidateError_none he).2.1⟩
    intro i hi
    obtain rfl | hi := List.mem_cons.mp hi
    · exact ⟨hown, hhead.1⟩
    · exact ih hhead.2 i hi

theorem mem_links {config : Config} {i : Nat} {line : Line} (h : getLine config i = some line) :
    ∃ m ∈ linksOf config, m.id = i ∧ m.required = line.followupRequired := by
  have hid : line.id = i := by simpa using List.find?_some h
  exact ⟨linkOf line, List.mem_map_of_mem (List.mem_of_find?_eq_some h), hid, rfl⟩

theorem usedAsDestination_false {config : Config} {id : Nat}
    (h : usedAsDestination config (some id) = false) :
    ∀ l ∈ linksOf config, l.required = true → l.id ≠ id → id ∉ l.ids := by
  intro l hl hreq hne hid
  obtain ⟨line, hline, rfl⟩ := List.mem_map.mp hl
  have hno := List.any_eq_false.mp h line hline
  simp_all [linkOf]

theorem validateConfig_ok {config : Config} {sourceId : Option Nat} {required : Bool}
    {ids kept out : List Nat} (h : validateConfig config sourceId required ids kept = .ok out)
    (hreq : required = true) :
    usedAsDestination config sourceId = false ∧ ∀ i ∈ out, sourceId ≠ some i ∧ (i ∈ kept ∨
      ∃ line, getLine config i = some line ∧ line.followupRequired = false) := by
  simp only [validateConfig, hreq, Bool.not_true, if_false, Bool.false_eq_true] at h
  split at h
  · cases h
  cases hc : checkAllowed config sourceId kept ids.eraseDups with
  | error e => simp [hc] at h
  | ok u =>
    simp only [hc] at h
    split at h
    · cases h
    · rename_i hused
      cases h
      exact ⟨by simpa using hused, checkAllowed_ok hc⟩

/-- The followers a line kept so far exist and have no followers. -/
theorem kept_followers {o : Office} (h : LinksOk o) {old : Option Line}
    (hold : ∀ l, old = some l → l ∈ o.lines) {i : Nat}
    (hi : i ∈ if old.any Line.followupRequired then (old.map Line.followupLineIds).getD [] else []) :
    ∃ m ∈ linksOf o.toConfig, m.id = i ∧ m.required = false := by
  cases old with
  | none => simp at hi
  | some l =>
    by_cases hreq : l.followupRequired = true
    · simp only [Option.any_some, hreq, if_true, Option.map_some, Option.getD_some] at hi
      exact h.followers (linkOf l) (List.mem_map_of_mem (hold l rfl)) hreq i hi
    · simp [hreq] at hi

/-! Operations. -/

/-- These links, and the next id. -/
def Same (links : List Link) (next : Nat) (o : Office) : Prop :=
  linksOf o.toConfig = links ∧ o.nextLine = next

theorem Same.onLine {links : List Link} {next : Nat} {f : Line → Line}
    (hf : ∀ l, linkOf (f l) = linkOf l) (lineId : Nat) {o : Office} (h : Same links next o) :
    Same links next (onLine lineId f o) :=
  ⟨(linksOf_onLine hf lineId o).trans h.1, h.2⟩

theorem replaceSteps_same (links : List Link) (next : Nat) (line : Line) (specs : List Engine.Spec) :
    Raising.Spec (Same links next) (replaceSteps line specs) (fun _ => Same links next)
      (Same links next) := by
  refine .bind (.lift (Q := fun _ => Same links next) (fun _ _ _ h => h) fun _ h => h) fun planned => ?_
  refine .bind (.read (Q := fun _ => Same links next) fun _ h => h) fun o => ?_
  refine .bind (.lift (Q := fun _ => Same links next) (fun _ _ _ h => h) fun _ h => h) fun _ => ?_
  exact .write fun _ h => h.onLine (fun _ => by rfl) line.id

theorem updateLine_same (links : List Link) (next lineId : Nat) (args : LineEdit) :
    Raising.Spec (Same links next) (updateLine lineId args) (fun _ => Same links next)
      (Same links next) := by
  refine .bind (.read (Q := fun _ => Same links next) fun _ h => h) fun o => ?_
  cases getLine o.toConfig lineId with
  | none => exact .throw fun _ h => h
  | some line =>
    simp only []
    split
    · exact .throw fun _ h => h
    refine .bind (.write (Q := fun _ => Same links next)
      fun _ h => h.onLine (fun _ => by rfl) lineId) fun _ => ?_
    refine .bind (R := fun _ => Same links next) ?_ fun _ => ?_
    · cases args.steps with
      | none => exact .pure fun _ h => h
      | some specs => exact replaceSteps_same links next line specs
    · exact .bind (.read (Q := fun _ => Same links next) fun _ h => h) fun o => .pure fun _ h => h

theorem deleteLine_same (links : List Link) (next : Nat) (label : String → String) (lineId : Nat)
    (actorId : Int) (isSuperuser force : Bool) :
    Raising.Spec (Same links next) (deleteLine label lineId actorId isSuperuser force)
      (fun _ => Same links next) (Same links next) := by
  refine .bind (.read (Q := fun _ => Same links next) fun _ h => h) fun o => ?_
  cases getLine o.toConfig lineId with
  | none => exact .throw fun _ h => h
  | some line =>
    simp only []
    split
    · exact .throw fun _ h => h
    split
    · exact .throw fun _ h => h
    refine .bind (.write (Q := fun _ => Same links next) fun _ h => h) fun _ => ?_
    exact .write fun _ h => h.onLine (fun _ => by rfl) lineId

/-- What the checks of a save found out. -/
theorem saved_followers {o : Office} (h : LinksOk o) {sourceId : Option Nat} {required : Bool}
    {ids out : List Nat} (hok : validateConfig o.toConfig sourceId required ids
      (if (sourceId.bind (getLine o.toConfig)).any Line.followupRequired then
        ((sourceId.bind (getLine o.toConfig)).map Line.followupLineIds).getD [] else []) = .ok out)
    (hreq : required = true) :
    usedAsDestination o.toConfig sourceId = false ∧
      ∀ i ∈ out, sourceId ≠ some i ∧ ∃ m ∈ linksOf o.toConfig, m.id = i ∧ m.required = false := by
  obtain ⟨hused, hids⟩ := validateConfig_ok hok hreq
  refine ⟨hused, fun i hi => ?_⟩
  obtain ⟨hne, hkept | ⟨line, hline, hnot⟩⟩ := hids i hi
  · refine ⟨hne, kept_followers h ?_ hkept⟩
    intro l hl
    obtain ⟨id, _, hid⟩ := Option.bind_eq_some_iff.mp hl
    exact List.mem_of_find?_eq_some hid
  · obtain ⟨m, hm, hmi, hmr⟩ := mem_links hline
    exact ⟨hne, m, hm, hmi, hmr.trans hnot⟩

theorem linksOf_add (o : Office) (line : Line) (next : Nat) :
    linksOf { o with lines := o.lines ++ [line], nextLine := next : Office }.toConfig =
      linksOf o.toConfig ++ [linkOf line] :=
  List.map_append

/-- A line that is sound, and may get these followers. -/
def Ready (required : Bool) (ids : List Nat) (lineId : Nat) (o : Office) : Prop :=
  LinksOk o ∧ Allowed lineId required ids (linksOf o.toConfig)

theorem createLine_ready {o : Office} (h : LinksOk o) {required : Bool} {ids : List Nat}
    (hids : required = true → ∀ i ∈ ids, ∃ m ∈ linksOf o.toConfig, m.id = i ∧ m.required = false)
    (args : NewLine) :
    Raising.Spec (Same (linksOf o.toConfig) o.nextLine) (createLine args) (Ready required ids)
      fun _ => True := by
  refine .bind (.lift (Q := fun _ => Same (linksOf o.toConfig) o.nextLine) (fun _ _ _ h => h)
    fun _ _ => trivial) fun planned => ?_
  refine .bind (.read (Q := fun t u => t = u ∧ Same (linksOf o.toConfig) o.nextLine u)
    fun _ h => ⟨rfl, h⟩) fun t => ?_
  refine .bind (.write (Q := fun _ => Ready required ids t.nextLine) ?_) fun _ => .pure fun _ h => h
  intro u ⟨htu, hlinks, hnext⟩
  subst htu
  refine ⟨?_, ?_⟩
  · rw [LinksOk, linksOf_add, hlinks, hnext]
    exact h.add
  · rw [linksOf_add, hlinks]
    intro hreq
    refine ⟨?_, ?_⟩
    · intro i hi
      obtain ⟨m, hm, hmi, hnot⟩ := hids hreq i hi
      refine ⟨?_, m, List.mem_append_left _ hm, hmi, hnot⟩
      rw [← hmi, hnext]
      exact (h.fresh m hm).ne
    · intro l hl hlreq _ hid
      obtain hl | hl := List.mem_append.mp hl
      · obtain ⟨m, hm, hmi, _⟩ := h.followers l hl hlreq _ hid
        exact (h.fresh m hm).ne (hmi.trans hnext)
      · rw [List.mem_singleton.mp hl] at hlreq
        cases hlreq

theorem saveLine_links (target : Target) (followupRequired : Option Bool)
    (followupLineIds : Option (List Nat)) :
    Raising.Spec LinksOk (saveLine target followupRequired followupLineIds) (fun _ => LinksOk)
      LinksOk := by
  refine .transaction (F := fun _ => True) (.of_eq fun o ho => .bind_read ?_)
  refine .bind_lift (fun ids hids => ?_) fun _ _ => trivial
  have hsaved := saved_followers ho hids
  generalize followupRequired.getD
    ((target.lineId.bind (getLine o.toConfig)).any Line.followupRequired) = required at hsaved ⊢
  refine .bind (R := Ready required ids) ?_ fun lineId => ?_
  · cases target with
    | new args =>
      refine (createLine_ready ho (fun hreq i hi => ((hsaved hreq).2 i hi).2) args).weaken ?_
      exact fun u hu => hu ▸ ⟨rfl, rfl⟩
    | edit lineId args =>
      refine .bind (R := fun _ => Same (linksOf o.toConfig) o.nextLine)
        (((updateLine_same _ _ lineId args).weaken fun u hu => hu ▸ ⟨rfl, rfl⟩).mono
          fun _ _ => trivial) fun _ => .pure fun u hu => ?_
      refine ⟨?_, ?_⟩
      · rw [LinksOk, hu.1, hu.2]
        exact ho
      · rw [hu.1]
        intro hreq
        obtain ⟨hused, hfollow⟩ := hsaved hreq
        refine ⟨fun i hi => ?_, usedAsDestination_false hused⟩
        obtain ⟨hne, hex⟩ := hfollow i hi
        exact ⟨fun hid => hne (congrArg some hid.symm), hex⟩
  · refine .bind (.write (Q := fun _ => LinksOk) ?_) fun _ => ?_
    · intro u ⟨hu, hall⟩
      rw [LinksOk, linksOf_setLink]
      exact hu.set hall
    · exact .bind (.read (Q := fun _ => LinksOk) fun _ h => h) fun o => .pure fun _ h => h

/-! Runs. -/

/-- A save, a deletion, or any change that leaves ids and followers alone. -/
inductive Edit where
  | save (target : Target) (followupRequired : Option Bool) (followupLineIds : Option (List Nat))
  | delete (label : String → String) (lineId : Nat) (actorId : Int) (isSuperuser force : Bool)
  | other (change : Office → Office)
      (h : ∀ o, linksOf (change o).toConfig = linksOf o.toConfig ∧ (change o).nextLine = o.nextLine)

def Edit.apply : Edit → Office → Office
  | .save target required ids, o => ((saveLine target required ids).on o).2
  | .delete label lineId actorId isSuperuser force, o =>
    ((deleteLine label lineId actorId isSuperuser force).on o).2
  | .other change _, o => change o

def edited (edits : List Edit) (o : Office) : Office := edits.foldl (fun o e => e.apply o) o

theorem apply_links (e : Edit) {o : Office} (h : LinksOk o) : LinksOk (e.apply o) := by
  cases e with
  | save target required ids => exact (saveLine_links target required ids).final (fun _ _ h => h) (fun _ h => h) h
  | delete label lineId actorId isSuperuser force =>
    have hsame : Same (linksOf o.toConfig) o.nextLine
        ((deleteLine label lineId actorId isSuperuser force).on o).2 :=
      (deleteLine_same _ _ label lineId actorId isSuperuser force).final (fun _ _ h => h) (fun _ h => h)
        ⟨rfl, rfl⟩
    rw [LinksOk, Edit.apply, hsame.1, hsame.2]
    exact h
  | other change hc =>
    obtain ⟨hlinks, hnext⟩ := hc o
    rw [LinksOk, Edit.apply, hlinks, hnext]
    exact h

theorem edited_links (edits : List Edit) {o : Office} (h : LinksOk o) : LinksOk (edited edits o) := by
  induction edits generalizing o with
  | nil => exact h
  | cons e edits ih => exact ih (apply_links e h)

theorem never_chains (edits : List Edit) :
    ∀ l ∈ (edited edits empty).lines, l.followupRequired = true → ∀ i ∈ l.followupLineIds,
      i ≠ l.id ∧ ∀ m ∈ (edited edits empty).lines, m.followupRequired = true → m.id ≠ i := by
  have hempty : LinksOk empty := ⟨by simp [linksOf, empty], by simp [linksOf, empty], by simp [linksOf, empty]⟩
  have h := edited_links edits hempty
  have hnot {l m : Line} (hl : l ∈ (edited edits empty).lines) (hm : m ∈ (edited edits empty).lines)
      (hreq : l.followupRequired = true) (hid : m.id ∈ l.followupLineIds) :
      m.followupRequired = false :=
    h.not_both (List.mem_map_of_mem hl) (List.mem_map_of_mem hm) hreq hid
  intro l hl hreq i hi
  refine ⟨?_, ?_⟩
  · intro hil
    subst hil
    simp [hnot hl hl hreq hi] at hreq
  · intro m hm hmreq hmi
    subst hmi
    simp [hnot hl hm hreq hi] at hmreq

def openToAll (name : String) : NewLine where
  name := name
  ownerId := none
  isShared := true
  steps := [⟨.person 3, none⟩]

/-- A second line, which the first one follows. -/
def followed : List Edit := [.save (.new (openToAll "first")) none none, .save (.new (openToAll "second")) (some true) (some [1])]

theorem followed_never_chains : ∃ l ∈ (edited followed empty).lines, 1 ≠ l.id ∧
    ∀ m ∈ (edited followed empty).lines, m.followupRequired = true → m.id ≠ 1 := by
  have hin : (2, true, [1]) ∈ (edited followed empty).lines.map fun l => (l.id, l.followupRequired, l.followupLineIds) := by
    decide
  obtain ⟨l, hl, heq⟩ := List.mem_map.mp hin
  obtain ⟨-, hreq, hids⟩ : l.id = 2 ∧ l.followupRequired = true ∧ l.followupLineIds = [1] := by simpa using heq
  exact ⟨l, hl, never_chains followed l hl hreq 1 (by simp [hids])⟩

end XgenSdk.Links
