import XgenSdk.Approval.CancelRace

/-! Filling blocks against concurrent decisions. `fill_block` checks the step
or the approvals and then writes the block, without looking again. -/
namespace XgenSdk.FillRace
open XgenSdk.Py XgenSdk.Models XgenSdk.Interleave XgenSdk.Store XgenSdk.Race

/-- The orders whose approval fixes a block: its own, and any for a draft block. -/
def Fixing (order : Int) (k : Nat) : Prop := order = 0 ∨ (k : Int) = order

/-- An approval has fixed the blocks of this order. -/
def Fixed (order : Int) (w : World) : Prop :=
  ∃ s ∈ w.steps, Fixing order s.stepOrder ∧ s.status = .approved

instance (order : Int) (k : Nat) : Decidable (Fixing order k) := instDecidableOr

instance (order : Int) (w : World) : Decidable (Fixed order w) :=
  inferInstanceAs (Decidable (∃ s ∈ w.steps, _ ∧ _))

/-- The stored data of a block. -/
def dataOf (w : World) (blockId : Nat) : Option (Option Json) :=
  (w.blocks.find? (sameBlock blockId)).map Block.data

/-- Whether the call fills this block. -/
def Fills (blockId : Nat) : Call → Prop
  | .fillBlock _ id _ _ => id = blockId
  | _ => False

/-- The check is made and the block still to be written. -/
def Checked (blockId : Nat) (t : Thread Reply ApprovalError Unit) : Prop :=
  (.selectApproved ∈ t.issued ∨ ∃ order actorId, .selectOwnStep order actorId ∈ t.issued) ∧
    ∃ data actorId now, t.rest.MayIssue (.updateBlock blockId data actorId now)

/-- No step that fixes a block is approved while a call is between its check
and its write of that block. -/
def NoApprovalWhileChecked (calls : Nat → Call) (c : Configs) (m : Move Nat Time) : Prop :=
  ∀ j, m ≠ .issue j → ∀ b ∈ c.shared.blocks, Fills b.id (calls j) → Checked b.id (c.threads j) →
    ¬ Approves (Fixing b.stepOrder) c.shared (c.move exec elapse m).shared

/-- The data of fixed blocks stays. -/
def DataKept (x y : World) : Prop :=
  ∃ g : Block → Block, y.blocks = x.blocks.map g ∧
    (∀ b, (g b).id = b.id ∧ (g b).stepOrder = b.stepOrder) ∧
    ∀ b ∈ x.blocks, Fixed b.stepOrder x → (g b).data = b.data

def discipline (calls : Nat → Call) : Discipline Nat World Reply ApprovalError Unit where
  inv w := Shape.Numbered w.steps ∧ (w.blocks.map Block.id).Nodup
  guar _ x y := Evolves x y ∧ DataKept x y
  ok _ _ := True
  extra i t x y := ∀ b ∈ x.blocks, Fills b.id (calls i) → Checked b.id t →
    ¬ Approves (Fixing b.stepOrder) x y

theorem Fixed.evolves {order : Int} {x y : World} (h : Fixed order x) (he : Evolves x y) :
    Fixed order y := by
  obtain ⟨s, hs, hk, hst⟩ := h
  obtain ⟨t, ht, htk, htst⟩ := he.done (by simp) (by simp) ⟨s, hs, rfl, hst⟩
  exact ⟨t, ht, htk ▸ hk, htst⟩

theorem DataKept.of_eq {x y : World} (h : y.blocks = x.blocks) : DataKept x y :=
  ⟨id, by rw [h, List.map_id], fun _ => ⟨rfl, rfl⟩, fun _ _ _ => rfl⟩

theorem DataKept.trans {x y z : World} (he : Evolves x y) (h : DataKept x y) (h' : DataKept y z) :
    DataKept x z := by
  obtain ⟨g, hg, hgs, hgd⟩ := h
  obtain ⟨g', hg', hgs', hgd'⟩ := h'
  refine ⟨g' ∘ g, by rw [hg', hg, List.map_map], ?_, ?_⟩
  · intro b
    exact ⟨(hgs' (g b)).1.trans (hgs b).1, (hgs' (g b)).2.trans (hgs b).2⟩
  · intro b hb hx
    have hy : Fixed (g b).stepOrder y := (hgs b).2 ▸ hx.evolves he
    exact (hgd' (g b) (hg ▸ List.mem_map_of_mem hb) hy).trans (hgd b hb hx)

theorem DataKept.dataOf {x y : World} (h : DataKept x y) (hid : (x.blocks.map Block.id).Nodup)
    {b : Block} (hb : b ∈ x.blocks) (hx : Fixed b.stepOrder x) : dataOf y b.id = dataOf x b.id := by
  obtain ⟨g, hg, hgs, hgd⟩ := h
  have hsame : sameBlock b.id ∘ g = sameBlock b.id := by
    funext c
    simp [sameBlock, (hgs c).1]
  rw [FillRace.dataOf, FillRace.dataOf, hg, List.find?_map, hsame, Option.map_map]
  cases hf : x.blocks.find? (sameBlock b.id) with
  | none => rfl
  | some c =>
    have hc : c = b := by
      refine List.inj_on_of_nodup_map hid (List.mem_of_find?_eq_some hf) hb ?_
      simpa [sameBlock] using List.find?_some hf
    simp [hc, hgd b hb hx]

theorem inv_evolves {calls : Nat → Call} {x y : World} (h : (discipline calls).inv x)
    (he : Evolves x y) : (discipline calls).inv y := by
  refine ⟨he.numbered h.1, ?_⟩
  obtain ⟨g, hg, hgs⟩ := he.blocks
  have hc : Block.id ∘ g = Block.id := funext fun b => (hgs b).1
  rw [hg, List.map_map, hc]
  exact h.2

theorem others_evolve {calls : Nat → Call} {i : Nat} {t : Thread Reply ApprovalError Unit}
    {x y : World} (h : (discipline calls).Others elapse i t x y) : Evolves x y := by
  obtain ⟨_, _, _, _, ⟨d, rfl⟩ | ⟨_, _, hg⟩⟩ := h
  · exact Evolves.elapse x d
  · exact hg.1

/-- Every statement but the write of a block keeps all data. -/
theorem exec_keeps {calls : Nat → Call} (i : Nat) {s : Stmt} (hs : Proper s)
    (hno : ∀ id data actorId now, s ≠ .updateBlock id data actorId now) {x : World}
    (hx : (discipline calls).inv x) :
    (discipline calls).inv (exec i s x).2 ∧ (discipline calls).guar i x (exec i s x).2 := by
  have he := exec_evolves i hs x
  refine ⟨inv_evolves hx he, he, DataKept.of_eq ?_⟩
  cases s with
  | updateBlock id data actorId now => exact absurd rfl (hno id data actorId now)
  | moveRequest status order decidedAt seen => simp only [exec]; split <;> rfl
  | closeRequest now canceledBy note => simp only [exec]; split <;> rfl
  | claimApply now stale => simp only [exec]; split <;> rfl
  | _ => rfl

theorem outline_of_only {calls : Nat → Call} {i : Nat} {issued : List Stmt} {P : World → Prop}
    {p : Db Unit} {ok : Stmt → Prop} (hp : p.Only ok)
    (hok : ∀ s, ok s → Proper s ∧ ∀ id data actorId now, s ≠ .updateBlock id data actorId now) :
    (discipline calls).Outline exec elapse i issued P p :=
  .of_only hp fun s hs _ hx _ => exec_keeps i (hok s hs).1 (hok s hs).2 hx

theorem settling_safe {s : Stmt} (h : Settling s) :
    Proper s ∧ ∀ id data actorId now, s ≠ .updateBlock id data actorId now := by
  cases s <;> simp_all [Settling, Proper]

/-! The call that fills a block. -/
section Fill
variable {calls : Nat → Call} {i blockId : Nat}

/-- The block to fill exists and has this order. -/
def Has (blockId : Nat) (order : Int) (w : World) : Prop :=
  ∃ b ∈ w.blocks, b.id = blockId ∧ b.stepOrder = order

/-- No approval has fixed the block yet. -/
def Free (blockId : Nat) (order : Int) (w : World) : Prop :=
  Has blockId order w ∧ NoneApproved (Fixing order) w

theorem Has.evolves {order : Int} {x y : World} (h : Has blockId order x) (he : Evolves x y) :
    Has blockId order y := by
  obtain ⟨b, hb, hid, ho⟩ := h
  obtain ⟨g, hg, hgs⟩ := he.blocks
  exact ⟨g b, hg ▸ List.mem_map_of_mem hb, (hgs b).1.trans hid, (hgs b).2.trans ho⟩

theorem stable_has (order : Int) (t : Thread Reply ApprovalError Unit) :
    (discipline calls).Stable elapse i t (Has blockId order) :=
  fun _ _ h hx => hx.evolves (others_evolve h)

/-- Between its check and its write the block stays free. -/
theorem stable_free (hc : Fills blockId (calls i)) {order : Int}
    {t : Thread Reply ApprovalError Unit} (ht : Checked blockId t) :
    (discipline calls).Stable elapse i t (Free blockId order) := by
  intro x y h ⟨hhas, hnone⟩
  have he := others_evolve h
  refine ⟨hhas.evolves he, hnone.evolves he ?_⟩
  obtain ⟨b, hb, rfl, rfl⟩ := hhas
  exact h.2.2.2.1 b hb hc ht

/-- Writing a free block changes no fixed data. -/
theorem updateBlock_keeps {order : Int} {x : World} (hx : (discipline calls).inv x)
    (hfree : Free blockId order x) (data : Option Json) (actorId : Int) (now : Time) :
    (discipline calls).inv (exec i (.updateBlock blockId data actorId now) x).2 ∧
      (discipline calls).guar i x (exec i (.updateBlock blockId data actorId now) x).2 := by
  have he := exec_evolves i (s := .updateBlock blockId data actorId now) trivial x
  refine ⟨inv_evolves hx he, he, _, rfl, ?_, ?_⟩
  · intro b
    split <;> exact ⟨rfl, rfl⟩
  · intro b hb hfixed
    split
    · rename_i hsame
      obtain ⟨⟨c, hc, hid, rfl⟩, hnone⟩ := hfree
      have hbc : b = c := by
        refine List.inj_on_of_nodup_map hx.2 hb hc ?_
        rw [hid]
        simpa [sameBlock] using hsame
      subst hbc
      obtain ⟨s, hs, hk, hst⟩ := hfixed
      exact absurd hst (hnone s hs hk)
    · rfl

/-- The write after the check. -/
def rest (tables : Evaluation.Tables) (blockId : Nat) (actorId : Int) (data : Json)
    (r : Nat × Int × String) : Db Unit :=
  Prog.void (do
    let _ ← writeBlock tables blockId actorId data
    return r)

/-- What `writeBlock` still does once it has read the blocks. -/
def restWrite (tables : Evaluation.Tables) (blockId : Nat) (actorId : Int) (data : Json)
    (r : Nat × Int × String) (blocks : List Block) : Db Unit :=
  Prog.void (do
    let _ ← (do
      let value ← Prog.lift (storedValue tables blocks blockId data)
      let now : Time ← stmt .now
      let _ ← stmt (.updateBlock blockId (column value) actorId now)
      return () : Db Unit)
    return r)

theorem mayIssue_restWrite {tables : Evaluation.Tables} {actorId : Int} {data value : Json}
    {r : Nat × Int × String} {blocks : List Block}
    (h : storedValue tables blocks blockId data = .ok value) :
    ∃ d a n, (restWrite tables blockId actorId data r blocks).MayIssue (.updateBlock blockId d a n) := by
  refine ⟨column value, actorId, (0 : Nat), ?_⟩
  rw [restWrite, h]
  exact Or.inr ⟨(0 : Nat), Or.inl rfl⟩

theorem mayIssue_rest {tables : Evaluation.Tables} {actorId : Int} {data : Json}
    {r : Nat × Int × String} :
    ∃ d a n, (rest tables blockId actorId data r).MayIssue (.updateBlock blockId d a n) := by
  have hfound : storedValue tables [] blockId data = .ok data := rfl
  obtain ⟨d, a, n, h⟩ := mayIssue_restWrite hfound
  exact ⟨d, a, n, Or.inr ⟨[], h⟩⟩

theorem rest_outline (hc : Fills blockId (calls i)) (tables : Evaluation.Tables) (actorId : Int)
    (data : Json) (r : Nat × Int × String) (order : Int) (issued : List Stmt)
    (hissued : .selectApproved ∈ issued ∨ ∃ k a, .selectOwnStep k a ∈ issued) :
    (discipline calls).Outline exec elapse i issued (Free blockId order)
      (rest tables blockId actorId data r) := by
  have hlater (s : Stmt) : .selectApproved ∈ issued ++ [s] ∨
      ∃ k a, .selectOwnStep k a ∈ issued ++ [s] := by
    obtain h | ⟨k, a, h⟩ := hissued
    · exact Or.inl (List.mem_append_left _ h)
    · exact Or.inr ⟨k, a, List.mem_append_left _ h⟩
  refine .act (fun blocks w => (∃ v, storedValue tables blocks blockId data = .ok v) →
    Free blockId order w) ?_ ?_ fun blocks => ?_
  · intro x hx hfree _
    obtain ⟨hinv, hguar⟩ := exec_keeps i (s := .selectBlocks) trivial (by simp) hx
    exact ⟨hinv, hguar, fun _ => hfree⟩
  · intro blocks x y h hx ⟨v, hv⟩
    exact stable_free hc ⟨hlater _, mayIssue_restWrite hv⟩ x y h (hx ⟨v, hv⟩)
  · change (discipline calls).Outline exec elapse i _ _
      (restWrite tables blockId actorId data r blocks)
    cases hv : storedValue tables blocks blockId data with
    | error e =>
      rw [restWrite, hv]
      trivial
    | ok value =>
      rw [restWrite, hv]
      refine .act (fun _ => Free blockId order) ?_ (fun now => stable_free hc ?_) fun now =>
        .act (fun _ _ => True) ?_ (fun _ => Discipline.stable_true i _) fun _ => trivial
      · intro x hx hfree _
        obtain ⟨hinv, hguar⟩ := exec_keeps i (s := .now) trivial (by simp) hx
        exact ⟨hinv, hguar, hfree ⟨value, rfl⟩⟩
      · obtain h | ⟨k, a, h⟩ := hlater .selectBlocks
        · exact ⟨Or.inl (List.mem_append_left _ h), _, _, _, Or.inl rfl⟩
        · exact ⟨Or.inr ⟨k, a, List.mem_append_left _ h⟩, _, _, _, Or.inl rfl⟩
      · intro x hx hfree _
        obtain ⟨hinv, hguar⟩ := updateBlock_keeps hx hfree (column value) actorId now
        exact ⟨hinv, hguar, trivial⟩

theorem fillRow_outline (hc : Fills blockId (calls i)) (tables : Evaluation.Tables) (actorId : Int)
    (data : Json) (row : BlockRow) (issued : List Stmt) :
    (discipline calls).Outline exec elapse i issued (Has blockId row.stepOrder)
      (fillRow tables blockId actorId data row).void := by
  unfold fillRow
  split
  · trivial
  split
  · trivial
  split
  · rename_i hdraft
    split
    · trivial
    refine .act (fun acted w => acted = false → Free blockId row.stepOrder w) ?_ ?_ fun acted => ?_
    · intro x hx hhas _
      obtain ⟨hinv, hguar⟩ := exec_keeps i (s := .selectApproved) trivial (by simp) hx
      refine ⟨hinv, hguar, fun hnone => ⟨hhas, fun s hs _ => ?_⟩⟩
      simpa using List.any_eq_false.mp hnone s hs
    · intro acted x y h hx hf
      subst hf
      exact stable_free hc ⟨Or.inl (by simp), mayIssue_rest⟩ x y h (hx rfl)
    · cases acted with
      | true => trivial
      | false =>
        exact (rest_outline hc tables actorId data _ row.stepOrder _ (Or.inl (by simp))).weaken
          fun w hw => hw rfl
  · rename_i hdraft
    refine .act (fun mine w => mine = some .pending → Free blockId row.stepOrder w) ?_ ?_ fun mine => ?_
    · intro x hx hhas _
      obtain ⟨hinv, hguar⟩ := exec_keeps i
        (s := .selectOwnStep row.stepOrder actorId) trivial (by simp) hx
      refine ⟨hinv, hguar, fun hmine => ⟨hhas, fun s hs hk => ?_⟩⟩
      obtain ⟨t, ht, hst⟩ := Option.map_eq_some_iff.mp hmine
      have hto := List.find?_some ht
      rw [Bool.and_eq_true, decide_eq_true_eq] at hto
      -- orders are unique, so the actor's step is the one of this order
      have hks : (s.stepOrder : Int) = row.stepOrder := hk.resolve_left hdraft
      have hso : s.stepOrder = t.stepOrder := by omega
      rw [hx.1.eq_of_order hs (List.mem_of_find?_eq_some ht) hso, hst]
      simp
    · intro mine x y h hx hp
      subst hp
      exact stable_free hc ⟨Or.inr ⟨_, _, List.mem_append_right _ (List.mem_singleton_self _)⟩,
        mayIssue_rest⟩ x y h (hx rfl)
    · cases mine with
      | none => trivial
      | some status =>
        simp only [Prog.bind]
        split
        · trivial
        · rename_i hp
          have hpend : status = .pending := not_not.mp hp
          subst hpend
          exact (rest_outline hc tables actorId data _ row.stepOrder _
            (Or.inr ⟨_, _, List.mem_append_right _ (List.mem_singleton_self _)⟩)).weaken
            fun w hw => hw rfl

theorem fillBlock_outline (hc : Fills blockId (calls i)) (tables : Evaluation.Tables)
    (actorId : Int) (data : Json) :
    (discipline calls).Outline exec elapse i [] (fun _ => True)
      (Store.fillBlock tables blockId actorId data).void := by
  have hread (s : Stmt) (hs : Settling s) (x : World) (hx : (discipline calls).inv x) :
      (discipline calls).inv (exec i s x).2 ∧ (discipline calls).guar i x (exec i s x).2 ∧ True := by
    obtain ⟨hinv, hguar⟩ := exec_keeps i (settling_safe hs).1 (settling_safe hs).2 hx
    exact ⟨hinv, hguar, trivial⟩
  refine .act (fun _ _ => True) (fun x hx _ _ => hread .selectRequest trivial x hx)
    (fun _ => Discipline.stable_true i _) fun _ => .act (fun _ _ => True)
    (fun x hx _ _ => hread .selectSteps trivial x hx) (fun _ => Discipline.stable_true i _) fun _ =>
    .act (fun _ _ => True) (fun x hx _ _ => hread .selectBlocks trivial x hx)
    (fun _ => Discipline.stable_true i _) fun _ =>
    .act (fun row w => ∀ r, row = some r → Has blockId r.stepOrder w) ?_ ?_ fun row => ?_
  · intro x hx _ _
    obtain ⟨hinv, hguar, _⟩ := hread (.selectBlock blockId) trivial x hx
    refine ⟨hinv, hguar, ?_⟩
    intro r hr
    obtain ⟨b, hb, rfl⟩ := Option.map_eq_some_iff.mp hr
    exact ⟨b, List.mem_of_find?_eq_some hb, by simpa [sameBlock] using List.find?_some hb, rfl⟩
  · intro row x y h hx r hr
    exact stable_has r.stepOrder _ x y h (hx r hr)
  · cases row with
    | none => trivial
    | some row =>
      exact (fillRow_outline hc tables actorId data row _).weaken fun w hw => hw row rfl

end Fill

/-- Every call keeps the discipline. -/
theorem program_outline (calls : Nat → Call) (lease : Time) (i : Nat) :
    (discipline calls).Outline exec elapse i [] (fun _ => True) ((calls i).program lease) := by
  cases hc : calls i with
  | fillBlock tables blockId actorId data =>
    exact fillBlock_outline (by rw [hc]; rfl) tables actorId data
  | decide site actorId action note followupArgs =>
    refine outline_of_only (decide_only lease site actorId action note followupArgs).void fun s h => ?_
    cases s <;> simp_all [Deciding, Proper]
  | cancel site actorId =>
    refine outline_of_only (cancel_only lease site actorId).void fun s h => ?_
    cases s <;> simp_all [Closing, Settling, Proper]
  | systemCancel site note =>
    refine outline_of_only (systemCancel_only lease site note).void fun s h => ?_
    cases s <;> simp_all [Closing, Settling, Proper]
  | settle site => exact outline_of_only (settle_only lease site).void fun s => settling_safe
  | finish site decidedOnly =>
    exact outline_of_only (finishSnapshot_only lease site decidedOnly) fun s => settling_safe

/-- What every move of a legal run does. -/
def Keeps (x y : World) : Prop := Evolves x y ∧ DataKept x y

theorem Keeps.refl (x : World) : Keeps x x := ⟨Evolves.refl x, DataKept.of_eq rfl⟩

theorem Keeps.trans {x y z : World} (h : Keeps x y) (h' : Keeps y z) : Keeps x z :=
  ⟨h.1.trans h'.1, h.2.trans h.1 h'.2⟩

theorem Keeps.of_does {calls : Nat → Call} {x y : World} (h : (discipline calls).Does elapse x y) :
    Keeps x y := by
  obtain rfl | ⟨d, rfl⟩ | ⟨_, hg⟩ := h
  · exact Keeps.refl x
  · exact ⟨Evolves.elapse x d, DataKept.of_eq rfl⟩
  · exact hg

theorem fixed_data_kept (lease : Time) (calls : Nat → Call) (w : World) (hw : Fresh w)
    (ms ns : Schedule)
    (hlegal : Legal exec elapse (NoApprovalWhileChecked calls) (start lease calls w) (ms ++ ns)) :
    ∀ b ∈ (after lease calls w ms).blocks, Fixed b.stepOrder (after lease calls w ms) →
      dataOf (after lease calls w (ms ++ ns)) b.id = dataOf (after lease calls w ms) b.id := by
  have hstart : (discipline calls).Holds exec elapse (start lease calls w) :=
    ⟨⟨hw.turn.1, hw.blockIds⟩, fun i => ⟨fun _ => True, trivial, Discipline.stable_true i _,
      program_outline calls lease i⟩⟩
  have hfair : Legal exec elapse ((discipline calls).Fair exec elapse) (start lease calls w)
      (ms ++ ns) := Legal.mono exec elapse hlegal fun c m h => ⟨trivial, h⟩
  obtain ⟨hms, hns⟩ := Legal.append exec elapse hfair
  have henv (x : World) (d : Time) (hx : (discipline calls).inv x) (_ : True) :
      (discipline calls).inv (elapse d x) := inv_evolves hx (Evolves.elapse x d)
  have hmid := hstart.play henv hms
  have hkeeps : Keeps (after lease calls w ms) (after lease calls w (ms ++ ns)) := by
    rw [after, after, play_append]
    exact hmid.play_rel henv hns Keeps.refl (fun x y z h h' => h.trans h') fun x y _ => Keeps.of_does
  intro b hb hfixed
  exact hkeeps.2.dataOf hmid.1.2 hb hfixed

/-! A filler and an approver of one step, the same person twice. -/

def noTables : Evaluation.Tables := ⟨some [], some [], id⟩

def fillAndApprovals (i : Nat) : Call :=
  if i = 0 then .fillBlock noTables 5 3 (.str "later") else .decide CancelRace.plainSite 3 .approved "" false

def oneBlock : World where
  request := { id := 1, title := "t", actionType := "generic", requesterId := some 1 }
  steps := [{ stepOrder := 1, approverId := 3, status := .pending }]
  blocks := [{ id := 5, stepOrder := 1, blockType := "text", label := "opinion", required := false }]
  clock := 9
  claimant := none
  hooks := []

theorem fresh_oneBlock : Fresh oneBlock where
  line := ⟨[⟨.person 3, some 1⟩], [⟨3, 1⟩], rfl, rfl, rfl⟩
  status := rfl
  decidedAt := rfl
  canceledBy := rfl
  appliedAt := rfl
  applyClaimedAt := rfl
  followupConfig := rfl
  blockIds := List.nodup_singleton 5
  claimant := rfl
  hooks := rfl

/-- While the filler has not begun, or moves alone, nothing is approved behind its back. -/
theorem legal_turns (c : Configs) (hc : (c.threads 0).issued = []) (n k : Nat) :
    Legal exec elapse (NoApprovalWhileChecked fillAndApprovals) c
      (List.replicate n (.issue 1) ++ List.replicate k (.issue 0)) := by
  induction n generalizing c with
  | zero =>
    clear hc
    induction k generalizing c with
    | zero => trivial
    | succ k ih =>
      refine ⟨?_, ih _⟩
      intro j hj b _ hfills
      have hne : j ≠ 0 := fun he => hj (by rw [he])
      simp [fillAndApprovals, hne, Fills] at hfills
  | succ n ih =>
    refine ⟨?_, ih _ ?_⟩
    · intro j _ b _ hfills hchecked
      by_cases hj : j = 0
      · subst hj
        simp [Checked, hc] at hchecked
      · simp [fillAndApprovals, hj, Fills] at hfills
    · rw [Config.move]
      split
      · simpa using hc
      · exact hc

/-- Approved first, the block keeps its data when its filler comes. -/
theorem fixed_data_kept_late :
    dataOf (after 600 fillAndApprovals oneBlock
        (List.replicate 6 (.issue 1) ++ List.replicate 8 (.issue 0))) 5 =
      dataOf (after 600 fillAndApprovals oneBlock (List.replicate 6 (.issue 1))) 5 :=
  fixed_data_kept 600 fillAndApprovals oneBlock fresh_oneBlock _ _ (legal_turns _ rfl 6 8)
    _ (List.Mem.head _) (by decide)

/-- The filler checks its turn, the same person approves the step, the filler writes. -/
theorem data_changed_after_approval :
    Fresh oneBlock ∧
      Fixed 1 (after 600 fillAndApprovals oneBlock
        (List.replicate 7 (.issue 0) ++ List.replicate 6 (.issue 1))) ∧
      dataOf (after 600 fillAndApprovals oneBlock
        (List.replicate 7 (.issue 0) ++ List.replicate 6 (.issue 1) ++ [.issue 0])) 5 ≠
      dataOf (after 600 fillAndApprovals oneBlock
        (List.replicate 7 (.issue 0) ++ List.replicate 6 (.issue 1))) 5 := by
  refine ⟨fresh_oneBlock, by decide, fun h => ?_⟩
  have hfilled := congrArg (Option.any Option.isSome) h
  revert hfilled
  decide

end XgenSdk.FillRace
