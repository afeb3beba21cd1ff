import XgenSdk.Config.Findings

/-! When the registered default is written. -/
namespace XgenSdk.Config
open XgenSdk.Py XgenSdk.Interleave
variable {pr : Process} {m m' : Memory} {t : Prog.Trace Reply}

/-! The default follows, or nothing does. -/

/-- The setting is taken for not set. -/
def Probe.fallsBack (probe : Probe) : Prop := probe.isFound = false ∧ probe.status ≠ .error

/-- The calls of a resolution that matter. -/
def Settled (pr : Process) (spec : Spec) (t : Prog.Trace Reply) : Prop :=
  ∃ asked probe rest, findings t = asked ++ rest ∧ Ladder pr spec.envName spec.configPath asked probe ∧
    (probe.fallsBack ∧ rest.head? = some ⟨.note (.fallback spec.envName), ()⟩ ∨ ¬probe.fallsBack ∧ rest = [])

theorem settle_findings {spec : Spec} {probe : Probe} {resolved : Resolved} (h : (settle pr spec probe m).Gives t (resolved, m')) :
    probe.fallsBack ∧ (findings t).head? = some ⟨.note (.fallback spec.envName), ()⟩ ∨ ¬probe.fallsBack ∧ findings t = [] := by
  unfold settle at h
  split at h
  · rename_i hfound
    refine .inr ⟨fun hfalls => by simp [hfalls.1] at hfound, ?_⟩
    obtain ⟨first, _, m₁, rest, hfirst, hrest, rfl⟩ := gives_call h
    rw [findings_append, findings_of_only (writeThrough_quiet _ _ _) hfirst, List.nil_append]
    cases hload : spec.load pr probe.value with
    | none =>
      rw [hload] at hrest
      obtain ⟨rfl, rfl, -⟩ := gives_pure hrest
      rfl
    | some value =>
      rw [hload] at hrest
      obtain ⟨rfl, rfl, -⟩ := gives_pure hrest
      rfl
  · rename_i hfound
    split at h
    · rename_i herror
      obtain ⟨rfl, rfl, -⟩ := gives_pure h
      exact .inr ⟨fun hfalls => hfalls.2 herror, rfl⟩
    · rename_i herror
      obtain ⟨r, rest, rfl, -⟩ := gives_ask h
      exact .inl ⟨⟨by simpa using hfound, herror⟩, rfl⟩

theorem resolve_settled {spec : Spec} {resolved : Resolved} (h : (resolve pr spec m).Gives t (resolved, m')) : Settled pr spec t := by
  unfold resolve at h
  obtain ⟨first, probe, m₁, rest, hprobe, hsettle, rfl⟩ := gives_call h
  exact ⟨findings first, probe, findings rest, findings_append _ _, probeValue_findings hprobe, settle_findings hsettle⟩

theorem Settled.append {spec : Spec} {u : Prog.Trace Reply} (h : Settled pr spec t) (hu : findings u = []) :
    Settled pr spec (t ++ u) := by
  obtain ⟨asked, probe, rest, ht, hladder, hrest⟩ := h
  exact ⟨asked, probe, rest, by rw [findings_append, hu, List.append_nil, ht], hladder, hrest⟩

theorem see_quiet (i : Nat) (spec : Spec) (version : Int) (counts : Counts) : Quiet (see i spec version counts) := by
  refine only_bind only_get fun m => ?_
  cases m.held i with
  | none => exact only_pure _
  | some h => exact only_bind (only_ask rfl) fun _ => only_modify _

theorem seeVersion_quiet (i : Nat) (spec : Spec) : Quiet (seeVersion pr i spec) :=
  only_bind (readVersionCached_quiet pr) fun r => see_quiet i spec r.1 r.2

theorem construct_settled {i : Nat} {spec : Spec} (h : (construct pr i spec m).Gives t ((), m')) : Settled pr spec t := by
  unfold construct at h
  obtain ⟨first, resolved, m₁, rest, hresolve, hrest, rfl⟩ := gives_call h
  refine (resolve_settled hresolve).append ?_
  cases resolved with
  | error => exact findings_of_only (only_bind (only_modify _) fun _ => seeVersion_quiet i spec) hrest
  | ok value stamp => exact findings_of_only (only_bind (only_modify _) fun _ => seeVersion_quiet i spec) hrest

theorem refresh_settled {i : Nat} {spec : Spec} (h : (refresh pr i spec m).Gives t ((), m')) : Settled pr spec t := by
  unfold refresh at h
  obtain ⟨first, loaded, m₁, rest, hreload, hrest, rfl⟩ := gives_call h
  have hlast : findings rest = [] := by
    cases loaded with
    | false =>
      obtain ⟨rfl, -, -⟩ := gives_pure hrest
      rfl
    | true => exact findings_of_only (seeVersion_quiet i spec) hrest
  refine Settled.append ?_ hlast
  unfold reload at hreload
  obtain ⟨asked, resolved, m₂, noted, hresolve, hnoted, rfl⟩ := gives_call hreload
  refine (resolve_settled hresolve).append ?_
  cases resolved with
  | error => exact findings_of_only (only_bind (only_modify _) fun _ => only_pure _) hnoted
  | ok value stamp => exact findings_of_only (only_bind (only_modify _) fun _ => only_pure _) hnoted

/-! Both stores say that the setting is missing. -/

def RedisSaysMissing (envName : String) (b : Prog.Trace Reply) : Prop :=
  ∃ payload stamp, ⟨.redisGet envName, .ok (payload, stamp)⟩ ∈ b ∧ HoldsNone payload

/-- There is no database, or it has no row under either name. -/
def DbSaysMissing (pr : Process) (spec : Spec) (b : Prog.Trace Reply) : Prop :=
  pr.managerDb = none ∧ pr.configDb = none ∨
    ∀ l ∈ lookups spec.envName spec.configPath, ⟨.dbSelect l.1 l.2, .ok none⟩ ∈ b

/-- The registered default is written only where both stores answered and neither holds the setting. -/
def SafeDefault (pr : Process) (spec : Spec) (t : Prog.Trace Reply) : Prop :=
  ⟨.note (.fallback spec.envName), ()⟩ ∈ t →
    RedisSaysMissing spec.envName (beforeDefault t) ∧ DbSaysMissing pr spec (beforeDefault t)

/-- The branches on which a setting that may be stored is taken for not set. -/
inductive Slip (pr : Process) (spec : Spec) (b : Prog.Trace Reply) : Prop where
  /-- A remembered miss serves, and no store is asked. -/
  | served (probe : Probe) (h : ⟨.note (.served spec.envName probe), ()⟩ ∈ b) (hprobe : probe.fallsBack)
  /-- Redis holds null. -/
  | nullValue (payload : Fields) (stamp : Nat) (h : ⟨.redisGet spec.envName, .ok (some payload, stamp)⟩ ∈ b)
    (hnull : Json.lookup "value" payload = some .null)
  /-- The database holds the empty text, or none. -/
  | emptyText (column : Column) (key : String) (row : Row) (h : ⟨.dbSelect column key, .ok (some row)⟩ ∈ b)
    (hempty : row.configValue = none ∨ row.configValue = some "")
  /-- The memo of an earlier miss stands for the answer of the database. -/
  | memo (hredis : RedisSaysMissing spec.envName b) (h : ⟨.note (.memo spec.envName), ()⟩ ∈ b)
    (hdb : ¬(pr.managerDb = none ∧ pr.configDb = none))
  /-- Only the setting has a database, and it is not asked. -/
  | unprobed (hredis : RedisSaysMissing spec.envName b) (h : pr.managerDb = none) (hdb : pr.configDb ≠ none)
  /-- A lookup in the database fails, and the failure is taken for no row. -/
  | swallowed (hredis : RedisSaysMissing spec.envName b) (column : Column) (key : String)
    (h : ⟨.dbSelect column key, .failed⟩ ∈ b) (hrow : ∀ column key row, ⟨.dbSelect column key, .ok (some row)⟩ ∉ b)

theorem lookups_nodup (envName configPath : String) : (lookups envName configPath).Nodup := by
  unfold lookups
  split_ifs <;> simp

theorem envName_lookup (spec : Spec) : (.envName, spec.envName) ∈ lookups spec.envName spec.configPath := by
  unfold lookups
  rw [if_neg spec.named]
  exact List.mem_append_right _ List.mem_cons_self

theorem isNull_iff (value : Json) : isNull value = true ↔ value = .null := by
  cases value <;> simp [isNull]

theorem Probe.isFound_ok (value : Json) (source : Source) (stamp : Nat) :
    Probe.fallsBack ⟨.ok, value, source, stamp⟩ ↔ value = .null := by
  rw [← isNull_iff]
  simp [fallsBack, isFound]

theorem readRow_null (envName configPath : String) (row : Row) :
    (readRow pr envName configPath row).value = .null ↔ row.configValue = none ∨ row.configValue = some "" :=
  Serializer.safeDeserialize_eq_null pr.lib row.configValue _

theorem RedisMiss.call {envName : String} {status : Status} (h : RedisMiss envName t status) {call : (s : Stmt) × Reply s}
    (hcall : call ∈ t) : call = ⟨.redisGet envName, .failed⟩ ∨
      ∃ payload stamp, HoldsNone payload ∧ call = ⟨.redisGet envName, .ok (payload, stamp)⟩ := by
  cases h with
  | unasked => exact absurd hcall List.not_mem_nil
  | failed => exact .inl (List.mem_singleton.mp hcall)
  | missing payload stamp h => exact .inr ⟨payload, stamp, h, List.mem_singleton.mp hcall⟩

theorem RedisMiss.missing_iff {envName : String} {status : Status} (h : RedisMiss envName t status) :
    RedisSaysMissing envName t ↔ status = .missing := by
  cases h with
  | unasked => simp [RedisSaysMissing]
  | failed => simp [RedisSaysMissing]
  | missing payload stamp h => exact ⟨fun _ => rfl, fun _ => ⟨payload, stamp, List.mem_singleton_self _, h⟩⟩

theorem DbAnswer.call {envName configPath : String} {status : Status} {row : Option DbRow} (h : DbAnswer pr envName configPath t status row)
    {call : (s : Stmt) × Reply s} (hcall : call ∈ t) : ∃ column key answer, call = ⟨.dbSelect column key, answer⟩ := by
  have hmiss : ∀ {ls : List (Column × String)} {u : Prog.Trace Reply}, SelectsMiss ls u → call ∈ u →
      ∃ column key answer, call = ⟨.dbSelect column key, answer⟩ := by
    intro ls u hu hcall
    obtain ⟨l, -, rfl | rfl⟩ := hu.mem hcall
    · exact ⟨l.1, l.2, .failed, rfl⟩
    · exact ⟨l.1, l.2, .ok none, rfl⟩
  cases h with
  | absent h => exact absurd hcall List.not_mem_nil
  | unavailable h => exact absurd hcall List.not_mem_nil
  | missing t h ht => exact hmiss ht hcall
  | row h t row l missed before after ht =>
    rw [ht.calls] at hcall
    obtain hcall | hcall := List.mem_append.mp hcall
    · exact hmiss ht.misses hcall
    · exact ⟨l.1, l.2, .ok (some row), List.mem_singleton.mp hcall⟩

/-- What a ladder that goes on to the database calls: Redis first, the database or its memo after it. -/
theorem mem_asked {envName configPath : String} {u : Prog.Trace Reply} {status db : Status} {row : Option DbRow}
    (h : RedisMiss envName t status) (hdb : DbAnswer pr envName configPath u db row) {call : (s : Stmt) × Reply s}
    (hcall : call ∈ t ++ u) : call ∈ t ∧ (∃ name, call.1 = .redisGet name) ∨ call ∈ u ∧ ∃ column key, call.1 = .dbSelect column key := by
  obtain hcall | hcall := List.mem_append.mp hcall
  · obtain rfl | ⟨payload, stamp, -, rfl⟩ := h.call hcall
    · exact .inl ⟨hcall, envName, rfl⟩
    · exact .inl ⟨hcall, envName, rfl⟩
  · obtain ⟨column, key, answer, rfl⟩ := hdb.call hcall
    exact .inr ⟨hcall, column, key, rfl⟩

theorem missing_append {envName configPath : String} {u : Prog.Trace Reply} {status db : Status} {row : Option DbRow}
    (h : RedisMiss envName t status) (hdb : DbAnswer pr envName configPath u db row) :
    RedisSaysMissing envName (t ++ u) ↔ status = .missing := by
  rw [← h.missing_iff]
  constructor
  · rintro ⟨payload, stamp, hcall, hnone⟩
    obtain ⟨hcall, -⟩ | ⟨-, column, key, heq⟩ := mem_asked h hdb hcall
    · exact ⟨payload, stamp, hcall, hnone⟩
    · cases heq
  · rintro ⟨payload, stamp, hcall, hnone⟩
    exact ⟨payload, stamp, List.mem_append_left u hcall, hnone⟩

/-- Where the ladder asked both stores, a slip is one of the database. -/
theorem slip_append {spec : Spec} {u : Prog.Trace Reply} {status db : Status} {row : Option DbRow}
    (h : RedisMiss spec.envName t status) (hdb : DbAnswer pr spec.envName spec.configPath u db row) (hslip : Slip pr spec (t ++ u)) :
    (∃ column key row, (⟨.dbSelect column key, .ok (some row)⟩ : (s : Stmt) × Reply s) ∈ u ∧
        (row.configValue = none ∨ row.configValue = some "")) ∨
      status = .missing ∧ pr.managerDb = none ∧ pr.configDb ≠ none ∨
      status = .missing ∧ (∃ column key, (⟨.dbSelect column key, .failed⟩ : (s : Stmt) × Reply s) ∈ u) ∧
        ∀ column key row, (⟨.dbSelect column key, .ok (some row)⟩ : (s : Stmt) × Reply s) ∉ u := by
  have hselect : ∀ {column : Column} {key : String} {answer : Answer (Option Row)},
      ⟨.dbSelect column key, answer⟩ ∈ t ++ u → ⟨.dbSelect column key, answer⟩ ∈ u := by
    intro column key answer hcall
    obtain ⟨-, name, heq⟩ | ⟨hcall, -⟩ := mem_asked h hdb hcall
    · cases heq
    · exact hcall
  have hnote : ∀ {n : Note}, ⟨.note n, ()⟩ ∉ t ++ u := by
    intro n hcall
    obtain ⟨-, name, heq⟩ | ⟨-, column, key, heq⟩ := mem_asked h hdb hcall
    · cases heq
    · cases heq
  cases hslip with
  | served probe hcall _ => exact absurd hcall hnote
  | nullValue payload stamp hcall hnull =>
    obtain ⟨hcall, -⟩ | ⟨-, column, key, heq⟩ := mem_asked h hdb hcall
    · obtain heq | ⟨payload', stamp', hnone, heq⟩ := h.call hcall
      · simp at heq
      · obtain ⟨rfl, rfl⟩ : some payload = payload' ∧ stamp = stamp' := by simpa using heq
        simp [HoldsNone, hnull] at hnone
    · cases heq
  | emptyText column key row hcall hempty => exact .inl ⟨column, key, row, hselect hcall, hempty⟩
  | memo _ hcall _ => exact absurd hcall hnote
  | unprobed hredis hmanager hconfig => exact .inr (.inl ⟨(missing_append h hdb).mp hredis, hmanager, hconfig⟩)
  | swallowed hredis column key hcall hrow =>
    refine .inr (.inr ⟨(missing_append h hdb).mp hredis, ⟨column, key, hselect hcall⟩, fun column key row hrow' => ?_⟩)
    exact hrow column key row (List.mem_append_right t hrow')

theorem FindsRow.mem {ls : List (Column × String)} {row : Row} {l : Column × String} {missed : Prog.Trace Reply}
    {before after : List (Column × String)} (h : FindsRow ls t row l missed before after) :
    ⟨.dbSelect l.1 l.2, .ok (some row)⟩ ∈ t := by
  rw [h.calls]
  exact List.mem_append_right missed List.mem_cons_self

/-- Of the rows only the last is answered. -/
theorem FindsRow.only {ls : List (Column × String)} {row : Row} {l : Column × String} {missed : Prog.Trace Reply}
    {before after : List (Column × String)} (h : FindsRow ls t row l missed before after) {column : Column} {key : String} {row' : Row}
    (hcall : ⟨.dbSelect column key, .ok (some row')⟩ ∈ t) : row' = row := by
  rw [h.calls] at hcall
  obtain hcall | hcall := List.mem_append.mp hcall
  · obtain ⟨l', -, heq | heq⟩ := h.misses.mem hcall
    · obtain ⟨hstmt, hanswer⟩ := Sigma.mk.inj heq
      cases hanswer
    · obtain ⟨hstmt, hanswer⟩ := Sigma.mk.inj heq
      cases hanswer
  · obtain ⟨hstmt, hanswer⟩ := Sigma.mk.inj (List.mem_singleton.mp hcall)
    injection eq_of_heq hanswer with hrow
    exact Option.some.inj hrow

/-- The lookup that gave a row did not give none. -/
theorem FindsRow.answered {ls : List (Column × String)} {row : Row} {l : Column × String} {missed : Prog.Trace Reply}
    {before after : List (Column × String)} (h : FindsRow ls t row l missed before after) (hls : ls.Nodup) :
    l ∈ ls ∧ ⟨.dbSelect l.1 l.2, .ok none⟩ ∉ t := by
  have hmem : l ∈ ls := by
    rw [h.split]
    exact List.mem_append_right before List.mem_cons_self
  refine ⟨hmem, fun hcall => ?_⟩
  rw [h.calls] at hcall
  obtain hcall | hcall := List.mem_append.mp hcall
  · obtain ⟨l', hl', heq⟩ := h.misses.mem hcall
    have hsame : l = l' := by
      obtain heq | heq := heq
      all_goals
        obtain ⟨hstmt, -⟩ := Sigma.mk.inj heq
        injection hstmt with hcolumn hkey
        exact Prod.ext hcolumn hkey
    rw [h.split, List.nodup_append] at hls
    exact hls.2.2 l' hl' l List.mem_cons_self hsame.symm
  · obtain ⟨-, hanswer⟩ := Sigma.mk.inj (List.mem_singleton.mp hcall)
    cases hanswer

theorem RedisMiss.status_missing {envName : String} {status : Status} (h : RedisMiss envName t status) (hstatus : status ≠ .error) :
    status = .missing := by
  cases h with
  | unasked => exact absurd rfl hstatus
  | failed => exact absurd rfl hstatus
  | missing => rfl

theorem fallsBack_status {status : Status} {value : Json} {source : Source} {stamp : Nat} {c : Prop} [Decidable c]
    (hfalls : Probe.fallsBack ⟨if c then .error else status, value, source, stamp⟩) : ¬c := fun hc => hfalls.2 (if_pos hc)

/-- The memo of an earlier miss is safe only where there is no database. -/
theorem safe_iff_memo {spec : Spec} (h : RedisMiss spec.envName t .missing) :
    (RedisSaysMissing spec.envName (t ++ [⟨.note (.memo spec.envName), ()⟩]) ∧
        DbSaysMissing pr spec (t ++ [⟨.note (.memo spec.envName), ()⟩])) ↔
      ¬Slip pr spec (t ++ [⟨.note (.memo spec.envName), ()⟩]) := by
  have hredis : RedisSaysMissing spec.envName (t ++ [⟨.note (.memo spec.envName), ()⟩]) := by
    obtain ⟨payload, stamp, hcall, hnone⟩ := h.missing_iff.mpr rfl
    exact ⟨payload, stamp, List.mem_append_left _ hcall, hnone⟩
  have hcalls : ∀ {call : (s : Stmt) × Reply s}, call ∈ t ++ [⟨.note (.memo spec.envName), ()⟩] →
      (∃ payload stamp, HoldsNone payload ∧ call = ⟨.redisGet spec.envName, .ok (payload, stamp)⟩) ∨
        call = ⟨.redisGet spec.envName, .failed⟩ ∨ call = ⟨.note (.memo spec.envName), ()⟩ := by
    intro call hcall
    obtain hcall | hcall := List.mem_append.mp hcall
    · exact (h.call hcall).elim (fun heq => .inr (.inl heq)) .inl
    · exact .inr (.inr (List.mem_singleton.mp hcall))
  have hselect : ∀ {column : Column} {key : String} {answer : Answer (Option Row)},
      ⟨.dbSelect column key, answer⟩ ∉ t ++ [⟨.note (.memo spec.envName), ()⟩] := by
    intro column key answer hcall
    obtain ⟨payload, stamp, -, heq⟩ | heq | heq := hcalls hcall
    all_goals simp at heq
  by_cases hdb : pr.managerDb = none ∧ pr.configDb = none
  · refine iff_of_true ⟨hredis, .inl hdb⟩ fun hslip => ?_
    cases hslip with
    | served probe hcall _ =>
      obtain ⟨payload, stamp, -, heq⟩ | heq | heq := hcalls hcall
      all_goals simp at heq
    | nullValue payload stamp hcall hnull =>
      obtain ⟨payload', stamp', hnone, heq⟩ | heq | heq := hcalls hcall
      · obtain ⟨rfl, rfl⟩ : some payload = payload' ∧ stamp = stamp' := by simpa using heq
        simp [HoldsNone, hnull] at hnone
      all_goals simp at heq
    | emptyText column key row hcall _ => exact hselect hcall
    | memo _ _ hnot => exact hnot hdb
    | unprobed _ _ hconfig => exact hconfig hdb.2
    | swallowed _ column key hcall _ => exact hselect hcall
  · refine iff_of_false (fun hsafe => ?_) (not_not_intro (.memo hredis (List.mem_append_right t List.mem_cons_self) hdb))
    obtain hnone | hall := hsafe.2
    · exact hdb hnone
    · exact hselect (hall _ (envName_lookup spec))

/-- The lookups that give no row are answers unless one failed. -/
theorem safe_iff_missing {spec : Spec} {u : Prog.Trace Reply} (h : RedisMiss spec.envName t .missing) (hsome : pr.managerDb ≠ none)
    (hmiss : SelectsMiss (lookups spec.envName spec.configPath) u) :
    RedisSaysMissing spec.envName (t ++ u) ∧ DbSaysMissing pr spec (t ++ u) ↔ ¬Slip pr spec (t ++ u) := by
  have hdb : DbAnswer pr spec.envName spec.configPath u .missing none := .missing u hsome hmiss
  have hredis := (missing_append h hdb).mpr rfl
  have hselect : ∀ {column : Column} {key : String} {answer : Answer (Option Row)},
      ⟨.dbSelect column key, answer⟩ ∈ t ++ u → ⟨.dbSelect column key, answer⟩ ∈ u := by
    intro column key answer hcall
    obtain ⟨-, name, heq⟩ | ⟨hcall, -⟩ := mem_asked h hdb hcall
    · cases heq
    · exact hcall
  have hrow : ∀ column key row, ⟨.dbSelect column key, .ok (some row)⟩ ∉ u := by
    intro column key row hcall
    obtain ⟨l, -, heq | heq⟩ := hmiss.mem hcall
    all_goals simp at heq
  constructor
  · rintro ⟨-, ⟨hnone, -⟩ | hall⟩ hslip
    · exact hsome hnone
    · obtain ⟨column, key, row, hcall, -⟩ | ⟨-, hnone, -⟩ | ⟨-, ⟨column, key, hcall⟩, -⟩ := slip_append h hdb hslip
      · exact hrow column key row hcall
      · exact hsome hnone
      · obtain ⟨l, hl, heq | heq⟩ := hmiss.mem hcall
        · rw [heq] at hcall
          exact hmiss.once (lookups_nodup _ _) hcall (hselect (hall l hl))
        · simp at heq
  · refine fun hslip => ⟨hredis, .inr fun l hl => List.mem_append_right t ?_⟩
    refine (hmiss.answers hl).resolve_left fun hfailed => hslip ?_
    refine .swallowed hredis l.1 l.2 (List.mem_append_right t hfailed) fun column key row hcall => ?_
    exact hrow column key row (hselect hcall)

/-- Where the default follows, both stores answered and hold nothing unless a branch slips. -/
theorem Ladder.safe_iff {spec : Spec} {probe : Probe} (h : Ladder pr spec.envName spec.configPath t probe) (hfalls : probe.fallsBack) :
    RedisSaysMissing spec.envName t ∧ DbSaysMissing pr spec t ↔ ¬Slip pr spec t := by
  cases h with
  | served probe =>
    refine iff_of_false (fun hsafe => ?_) (not_not_intro (.served probe List.mem_cons_self hfalls))
    obtain ⟨payload, stamp, hcall, -⟩ := hsafe.1
    simp at hcall
  | redis payload value stamp hvalue =>
    rw [Probe.isFound_ok] at hfalls
    refine iff_of_false (fun hsafe => ?_) (not_not_intro (.nullValue payload stamp List.mem_cons_self (hfalls ▸ hvalue)))
    obtain ⟨payload', stamp', hcall, hnone⟩ := hsafe.1
    obtain ⟨rfl, rfl⟩ : payload' = some payload ∧ stamp' = stamp := by simpa using hcall
    simp [HoldsNone, hvalue] at hnone
  | memo u status stamp hredis =>
    obtain rfl := hredis.status_missing (fallsBack_status hfalls)
    exact safe_iff_memo hredis
  | row u w status row stamp hredis hrow =>
    cases hrow with
    | row hsome w row l missed before after hfinds =>
      rw [Probe.isFound_ok, readRow_null] at hfalls
      refine iff_of_false (fun hsafe => ?_) (not_not_intro (.emptyText l.1 l.2 row (List.mem_append_right u hfinds.mem) hfalls))
      obtain ⟨hnone, -⟩ | hall := hsafe.2
      · exact hsome hnone
      · obtain ⟨hl, hnot⟩ := hfinds.answered (lookups_nodup _ _)
        obtain ⟨hcall, name, heq⟩ | ⟨hcall, -⟩ := mem_asked hredis (.row hsome w row l missed before after hfinds) (hall l hl)
        · cases heq
        · exact hnot hcall
  | nothing u w status db stamp hredis hdb =>
    have hanswered : ¬(status = .error ∨ db = .error) := by simpa using fallsBack_status hfalls
    obtain rfl := hredis.status_missing fun herror => hanswered (.inl herror)
    cases hdb with
    | absent hnone =>
      have hdb : DbAnswer pr spec.envName spec.configPath [] .missing none := .absent hnone
      have hgone := (missing_append hredis hdb).mpr rfl
      constructor
      · rintro ⟨-, ⟨-, hconfig⟩ | hall⟩ hslip
        · obtain ⟨column, key, row, hcall, -⟩ | ⟨-, -, hsome⟩ | ⟨-, ⟨column, key, hcall⟩, -⟩ := slip_append hredis hdb hslip
          · exact absurd hcall List.not_mem_nil
          · exact hsome hconfig
          · exact absurd hcall List.not_mem_nil
        · obtain ⟨-, name, heq⟩ | ⟨hcall, -⟩ := mem_asked hredis hdb (hall _ (envName_lookup spec))
          · cases heq
          · exact absurd hcall List.not_mem_nil
      · refine fun hslip => ⟨hgone, .inl ⟨hnone, ?_⟩⟩
        by_contra hconfig
        exact hslip (.unprobed hgone hnone hconfig)
    | unavailable hsome => exact absurd (.inr rfl) hanswered
    | missing w hsome hmiss => exact safe_iff_missing hredis hsome hmiss

theorem RedisMiss.status_error {envName : String} {status : Status} (h : RedisMiss envName t status) (hstatus : status ≠ .missing) :
    status = .error := by
  cases h with
  | unasked => rfl
  | failed => rfl
  | missing => exact absurd rfl hstatus

/-- Where the default does not follow, no branch slipped. -/
theorem Ladder.not_slip {spec : Spec} {probe : Probe} (h : Ladder pr spec.envName spec.configPath t probe) (hkeeps : ¬probe.fallsBack) :
    ¬Slip pr spec t := by
  intro hslip
  cases h with
  | served probe =>
    have hgone : ¬RedisSaysMissing spec.envName [⟨.note (.served spec.envName probe), ()⟩] := by simp [RedisSaysMissing]
    cases hslip with
    | served probe' hcall hprobe =>
      obtain rfl : probe' = probe := by simpa using hcall
      exact hkeeps hprobe
    | nullValue payload stamp hcall _ => simp at hcall
    | emptyText column key row hcall _ => simp at hcall
    | memo hredis _ _ => exact hgone hredis
    | unprobed hredis _ _ => exact hgone hredis
    | swallowed hredis _ _ _ _ => exact hgone hredis
  | redis payload value stamp hvalue =>
    rw [Probe.isFound_ok] at hkeeps
    have hgone : ¬RedisSaysMissing spec.envName [⟨.redisGet spec.envName, .ok (some payload, stamp)⟩] := by
      rintro ⟨payload', stamp', hcall, hnone⟩
      obtain ⟨rfl, rfl⟩ : payload' = some payload ∧ stamp' = stamp := by simpa using hcall
      simp [HoldsNone, hvalue] at hnone
    cases hslip with
    | served probe' hcall hprobe => simp at hcall
    | nullValue payload' stamp' hcall hnull =>
      obtain ⟨rfl, rfl⟩ : payload' = payload ∧ stamp' = stamp := by simpa using hcall
      exact hkeeps (Option.some.inj (hvalue.symm.trans hnull))
    | emptyText column key row hcall _ => simp at hcall
    | memo hredis _ _ => exact hgone hredis
    | unprobed hredis _ _ => exact hgone hredis
    | swallowed hredis _ _ _ _ => exact hgone hredis
  | memo u status stamp hredis =>
    have hstatus : status = .error := by
      refine hredis.status_error fun hmissing => hkeeps ?_
      rw [if_neg (by simp [hmissing])]
      exact ⟨rfl, by simp⟩
    have hcalls : ∀ {call : (s : Stmt) × Reply s}, call ∈ u ++ [⟨.note (.memo spec.envName), ()⟩] →
        call = ⟨.redisGet spec.envName, .failed⟩ ∨ call = ⟨.note (.memo spec.envName), ()⟩ := by
      intro call hcall
      subst hstatus
      obtain hcall | hcall := List.mem_append.mp hcall
      · cases hredis with
        | unasked => exact absurd hcall List.not_mem_nil
        | failed => exact .inl (List.mem_singleton.mp hcall)
      · exact .inr (List.mem_singleton.mp hcall)
    have hgone : ¬RedisSaysMissing spec.envName (u ++ [⟨.note (.memo spec.envName), ()⟩]) := by
      rintro ⟨payload, stamp, hcall, -⟩
      obtain heq | heq := hcalls hcall
      all_goals simp at heq
    cases hslip with
    | served probe' hcall hprobe =>
      obtain heq | heq := hcalls hcall
      all_goals simp at heq
    | nullValue payload stamp hcall _ =>
      obtain heq | heq := hcalls hcall
      all_goals simp at heq
    | emptyText column key row hcall _ =>
      obtain heq | heq := hcalls hcall
      all_goals simp at heq
    | memo hredis _ _ => exact hgone hredis
    | unprobed hredis _ _ => exact hgone hredis
    | swallowed hredis _ _ _ _ => exact hgone hredis
  | row u w status row stamp hredis hrow =>
    have hslipped := slip_append hredis hrow hslip
    cases hrow with
    | row hsome w row l missed before after hfinds =>
      rw [Probe.isFound_ok, readRow_null] at hkeeps
      obtain ⟨column, key, row', hcall, hempty⟩ | ⟨-, hnone, -⟩ | ⟨-, -, hnorow⟩ := hslipped
      · rw [hfinds.only hcall] at hempty
        exact hkeeps hempty
      · exact hsome hnone
      · exact hnorow _ _ _ hfinds.mem
  | nothing u w status db stamp hredis hdb =>
    have hslipped := slip_append hredis hdb hslip
    have herror : status = .error ∨ db = .error := by
      by_contra hnot
      refine hkeeps ?_
      rw [if_neg (by simpa using hnot)]
      exact ⟨rfl, by simp⟩
    cases hdb with
    | absent hnone =>
      obtain rfl : status = .error := herror.resolve_right (by simp)
      obtain ⟨column, key, row, hcall, -⟩ | ⟨hmissing, -⟩ | ⟨hmissing, -⟩ := hslipped
      · exact absurd hcall List.not_mem_nil
      all_goals cases hmissing
    | unavailable hsome =>
      obtain ⟨column, key, row, hcall, -⟩ | ⟨-, hnone, -⟩ | ⟨-, ⟨column, key, hcall⟩, -⟩ := hslipped
      · exact absurd hcall List.not_mem_nil
      · exact hsome hnone
      · exact absurd hcall List.not_mem_nil
    | missing w hsome hmiss =>
      obtain rfl : status = .error := herror.resolve_right (by simp)
      obtain ⟨column, key, row, hcall, -⟩ | ⟨hmissing, -⟩ | ⟨hmissing, -⟩ := hslipped
      · obtain ⟨l, -, heq | heq⟩ := hmiss.mem hcall
        all_goals simp at heq
      all_goals cases hmissing

/-- None of the calls of the ladder writes the default. -/
theorem Ladder.no_fallback {spec : Spec} {probe : Probe} (h : Ladder pr spec.envName spec.configPath t probe) :
    ∀ call ∈ t, isFallback call.1 = false := by
  intro call hcall
  cases h with
  | served probe =>
    rw [List.mem_singleton.mp hcall]
    rfl
  | redis payload value stamp hvalue =>
    rw [List.mem_singleton.mp hcall]
    rfl
  | memo u status stamp hredis =>
    obtain hcall | hcall := List.mem_append.mp hcall
    · obtain rfl | ⟨payload, stamp, -, rfl⟩ := hredis.call hcall
      all_goals rfl
    · rw [List.mem_singleton.mp hcall]
      rfl
  | row u w status row stamp hredis hrow =>
    obtain ⟨-, name, heq⟩ | ⟨-, column, key, heq⟩ := mem_asked hredis hrow hcall
    all_goals
      rw [heq]
      rfl
  | nothing u w status db stamp hredis hdb =>
    obtain ⟨-, name, heq⟩ | ⟨-, column, key, heq⟩ := mem_asked hredis hdb hcall
    all_goals
      rw [heq]
      rfl

/-- A slip depends on the calls that matter only. -/
theorem Slip.congr {spec : Spec} {b c : Prog.Trace Reply} (h : ∀ call : (s : Stmt) × Reply s, isFinding call.1 = true → (call ∈ b ↔ call ∈ c))
    (hslip : Slip pr spec b) : Slip pr spec c := by
  have hgone : RedisSaysMissing spec.envName b → RedisSaysMissing spec.envName c := by
    rintro ⟨payload, stamp, hcall, hnone⟩
    exact ⟨payload, stamp, (h _ rfl).mp hcall, hnone⟩
  cases hslip with
  | served probe hcall hprobe => exact .served probe ((h _ rfl).mp hcall) hprobe
  | nullValue payload stamp hcall hnull => exact .nullValue payload stamp ((h _ rfl).mp hcall) hnull
  | emptyText column key row hcall hempty => exact .emptyText column key row ((h _ rfl).mp hcall) hempty
  | memo hredis hcall hdb => exact .memo (hgone hredis) ((h _ rfl).mp hcall) hdb
  | unprobed hredis hmanager hdb => exact .unprobed (hgone hredis) hmanager hdb
  | swallowed hredis column key hcall hrow =>
    refine .swallowed (hgone hredis) column key ((h _ rfl).mp hcall) fun column key row hfound => ?_
    exact hrow column key row ((h _ rfl).mpr hfound)

theorem saysMissing_congr {spec : Spec} {b c : Prog.Trace Reply}
    (h : ∀ call : (s : Stmt) × Reply s, isFinding call.1 = true → (call ∈ b ↔ call ∈ c)) :
    RedisSaysMissing spec.envName b ∧ DbSaysMissing pr spec b ↔ RedisSaysMissing spec.envName c ∧ DbSaysMissing pr spec c := by
  have hredis : RedisSaysMissing spec.envName b ↔ RedisSaysMissing spec.envName c :=
    exists_congr fun payload => exists_congr fun stamp => and_congr_left fun _ => h _ rfl
  have hdb : DbSaysMissing pr spec b ↔ DbSaysMissing pr spec c :=
    or_congr_right (forall_congr' fun l => forall_congr' fun _ => h _ rfl)
  rw [hredis, hdb]

theorem Settled.safe_iff {spec : Spec} (h : Settled pr spec t) : SafeDefault pr spec t ↔ ¬Slip pr spec (beforeDefault t) := by
  obtain ⟨asked, probe, rest, ht, hladder, hrest⟩ := h
  have hbefore : beforeDefault (findings t) = asked := by
    rw [ht, beforeDefault, List.takeWhile_append_of_pos fun call hcall => by simp [hladder.no_fallback call hcall]]
    obtain ⟨-, hhead⟩ | ⟨-, rfl⟩ := hrest
    · obtain ⟨last, rfl⟩ := List.head?_eq_some_iff.mp hhead
      rw [List.takeWhile_cons_of_neg (by simp [isFallback]), List.append_nil]
    · rw [List.takeWhile_nil, List.append_nil]
  have hsame : ∀ call : (s : Stmt) × Reply s, isFinding call.1 = true → (call ∈ beforeDefault t ↔ call ∈ asked) := by
    intro call hcall
    rw [mem_beforeDefault hcall, hbefore]
  have hslip : Slip pr spec (beforeDefault t) ↔ Slip pr spec asked :=
    ⟨Slip.congr hsame, Slip.congr fun call hcall => (hsame call hcall).symm⟩
  have hnoted : ⟨.note (.fallback spec.envName), ()⟩ ∈ t ↔ probe.fallsBack := by
    have hmem : ⟨.note (.fallback spec.envName), ()⟩ ∈ t ↔ (⟨.note (.fallback spec.envName), ()⟩ : (s : Stmt) × Reply s) ∈ findings t := by
      rw [findings, List.mem_filter]
      exact ⟨fun hcall => ⟨hcall, rfl⟩, fun hcall => hcall.1⟩
    rw [hmem, ht, List.mem_append]
    obtain ⟨hfalls, hhead⟩ | ⟨hkeeps, rfl⟩ := hrest
    · obtain ⟨last, rfl⟩ := List.head?_eq_some_iff.mp hhead
      exact iff_of_true (.inr List.mem_cons_self) hfalls
    · refine iff_of_false ?_ hkeeps
      rintro (hcall | hcall)
      · exact Bool.false_ne_true (hladder.no_fallback _ hcall).symm
      · exact absurd hcall List.not_mem_nil
  rw [SafeDefault, hnoted, hslip, saysMissing_congr hsame]
  by_cases hfalls : probe.fallsBack
  · rw [← hladder.safe_iff hfalls]
    exact ⟨fun h => h hfalls, fun h _ => h⟩
  · exact iff_of_true (fun h => absurd h hfalls) (hladder.not_slip hfalls)

/-- A setting is constructed or refreshed, with these calls and answers. -/
def Resolves (pr : Process) (i : Nat) (spec : Spec) (m m' : Memory) (t : Prog.Trace Reply) : Prop :=
  (construct pr i spec m).Gives t ((), m') ∨ (refresh pr i spec m).Gives t ((), m')

theorem default_safe_iff {i : Nat} {spec : Spec} (h : Resolves pr i spec m m' t) :
    SafeDefault pr spec t ↔ ¬Slip pr spec (beforeDefault t) :=
  Settled.safe_iff (h.elim construct_settled refresh_settled)

/-! The empty text is stored, and the default overwrites it. -/

def sampleProcess : Process := ⟨⟨1, 30, 2, 5, 10⟩, some .appDb, none, ⟨fun _ => none, fun _ => "", fun _ => none⟩⟩

def sampleSpec : Spec := ⟨"THEME", by decide, "app.theme", .str "dark", none⟩

/-- Redis has no value, and the row of the setting holds the empty text. -/
def emptyTextStored : (s : Stmt) → Reply s
  | .clock => 100
  | .connect => true
  | .redisGet _ => .ok (none, 0)
  | .redisVersion => .ok (none, fun _ => 0)
  | .redisSet .. => .ok 1
  | .redisAdd .. => .ok ()
  | .redisIncr .. => .ok (1, fun _ => 1)
  | .dbAvailable => true
  | .dbSelect .. => .ok (some ⟨"app.theme", some "", "string", "THEME"⟩)
  | .dbUpsert _ => .ok ()
  | .dbUpdate _ => .ok 1
  | .dbInsert _ => .ok ()
  | .note _ => ()

def emptyTextRun : Prog.Trace Reply × (Unit × Memory) := (construct sampleProcess 0 sampleSpec freshMemory).replay emptyTextStored

theorem empty_text_overwritten : ¬∀ (pr : Process) (i : Nat) (spec : Spec) (m m' : Memory) (t : Prog.Trace Reply),
    Resolves pr i spec m m' t → SafeDefault pr spec t := by
  intro h
  have hgives := Prog.gives_replay emptyTextStored (construct sampleProcess 0 sampleSpec freshMemory)
  have hsafe := h _ _ _ _ _ _ (.inl hgives)
  have hslip : Slip sampleProcess sampleSpec (beforeDefault emptyTextRun.1) :=
    .emptyText .configPath "app.theme" ⟨"app.theme", some "", "string", "THEME"⟩ (List.mem_of_getElem? (i := 5) rfl) (.inr rfl)
  exact (Settled.safe_iff (construct_settled hgives)).mp hsafe hslip

theorem default_safe_iff_empty_text :
    SafeDefault sampleProcess sampleSpec emptyTextRun.1 ↔ ¬Slip sampleProcess sampleSpec (beforeDefault emptyTextRun.1) :=
  default_safe_iff (.inl (Prog.gives_replay emptyTextStored (construct sampleProcess 0 sampleSpec freshMemory)))

end XgenSdk.Config
