import XgenSdk.Config.Stores
import XgenSdk.Config.Persistent

/-! What is found when a setting is looked for: the calls that matter, and the answers that lead to each probe. -/
namespace XgenSdk.Config
open XgenSdk.Py XgenSdk.Interleave
variable {pr : Process} {m m' : Memory} {t : Prog.Trace Reply}

/-! The calls that matter: those that look for the setting, and the notes of the branches. -/

def isFinding : Stmt → Bool
  | .redisGet _ => true
  | .dbSelect .. => true
  | .note (.served ..) => true
  | .note (.memo _) => true
  | .note (.fallback _) => true
  | _ => false

def isFallback : Stmt → Bool
  | .note (.fallback _) => true
  | _ => false

def findings (t : Prog.Trace Reply) : Prog.Trace Reply := t.filter fun call => isFinding call.1

/-- The calls before the default is written. -/
def beforeDefault (t : Prog.Trace Reply) : Prog.Trace Reply := t.takeWhile fun call => !isFallback call.1

theorem findings_nil : findings [] = [] := rfl

theorem findings_append (t u : Prog.Trace Reply) : findings (t ++ u) = findings t ++ findings u := List.filter_append ..

theorem findings_of_only {α : Type} {x : Call α} (h : OnlyCalls (fun s => isFinding s = false) x) {a : α}
    (ht : (x m).Gives t (a, m')) : findings t = [] := by
  rw [findings, List.filter_eq_nil_iff]
  intro call hcall
  rw [(h m).gives ht call hcall]
  exact Bool.false_ne_true

/-- Looking for a finding, the others do not matter. -/
theorem mem_beforeDefault {call : (s : Stmt) × Reply s} (hcall : isFinding call.1 = true) (t : Prog.Trace Reply) :
    call ∈ beforeDefault t ↔ call ∈ beforeDefault (findings t) := by
  induction t with
  | nil => rfl
  | cons c t ih =>
    rw [beforeDefault, List.takeWhile_cons, findings, List.filter_cons]
    by_cases hfallback : isFallback c.1 = true
    · have hfinding : isFinding c.1 = true := by
        cases hc : c.1 with
        | note n => cases n <;> simp_all [isFallback, isFinding]
        | _ => simp [hc, isFallback] at hfallback
      rw [if_neg (by simp [hfallback]), if_pos hfinding, beforeDefault, List.takeWhile_cons_of_neg (by simp [hfallback])]
    · rw [if_pos (by simp [hfallback]), List.mem_cons, ← beforeDefault, ih]
      by_cases hfinding : isFinding c.1 = true
      · rw [if_pos hfinding, beforeDefault, beforeDefault, List.takeWhile_cons_of_pos (by simp [hfallback]), List.mem_cons]
        rfl
      · rw [if_neg hfinding]
        refine or_iff_right fun heq => hfinding ?_
        rw [← heq]
        exact hcall

/-! Calls that find nothing. -/

abbrev Quiet {α : Type} (x : Call α) : Prop := OnlyCalls (fun s => isFinding s = false) x

theorem ensureConnection_quiet (pr : Process) : Quiet (ensureConnection pr) := by
  refine only_bind only_get fun m => only_ite (only_pure _) (only_bind (only_ask rfl) fun now => only_bind only_get fun m' => ?_)
  refine only_ite (only_pure _) (only_bind (only_ask rfl) fun now' => only_bind (only_modify _) fun _ => ?_)
  exact only_bind (only_ask rfl) fun connected => only_bind (only_modify _) fun _ => only_pure _

theorem noteVersion_quiet (version : Option Int) : Quiet (noteVersion version) :=
  only_bind (only_ask rfl) fun _ => only_modify _

theorem getConfigVersion_quiet (pr : Process) : Quiet (getConfigVersion pr) := by
  refine only_bind (ensureConnection_quiet pr) fun connected => only_ite (only_pure _) (only_bind (only_ask rfl) fun r => ?_)
  cases r with
  | failed => exact only_pure _
  | ok raw => exact only_bind (noteVersion_quiet raw.1) fun _ => only_pure _

theorem probeConfigVersion_quiet (pr : Process) : Quiet (probeConfigVersion pr) := by
  refine only_bind (ensureConnection_quiet pr) fun connected => only_ite (only_pure _) (only_bind (only_ask rfl) fun r => ?_)
  cases r with
  | failed => exact only_pure _
  | ok raw => exact only_bind (noteVersion_quiet raw.1) fun _ => only_pure _

theorem readVersionCached_quiet (pr : Process) : Quiet (readVersionCached pr) := by
  refine only_bind (only_ask rfl) fun now => only_bind only_get fun m => ?_
  dsimp only
  split
  · exact only_pure _
  · exact only_bind (getConfigVersion_quiet pr) fun r => only_bind (only_modify _) fun _ => only_pure _

theorem knownVersion_quiet (pr : Process) : Quiet (knownVersion pr) := by
  refine only_bind (only_ask rfl) fun now => only_bind (only_modify _) fun _ => only_bind only_get fun m => ?_
  refine only_ite (only_pure _) (only_bind (only_modify _) fun _ => only_bind (probeConfigVersion_quiet pr) fun _ => ?_)
  exact only_bind (only_modify _) fun _ => only_bind only_get fun m' => only_pure _

theorem rememberDbMiss_quiet (envName : String) (missing : Bool) : Quiet (rememberDbMiss envName missing) :=
  only_ite (only_modify _) (only_bind (only_ask rfl) fun _ => only_modify _)

theorem remember_quiet (key : String × String) (version : Option Int) (probe : Probe) : Quiet (remember key version probe) := by
  unfold remember
  cases version with
  | none => exact only_pure _
  | some v =>
    refine only_ite (only_pure _) (only_bind only_get fun m => only_ite (only_pure _) ?_)
    exact only_bind (only_ask rfl) fun now => only_modify _

theorem isDbAvailable_quiet (db : Option DbKind) : Quiet (isDbAvailable db) := by
  unfold isDbAvailable
  cases db with
  | none => exact only_pure _
  | some kind => exact only_ask rfl

theorem restoreToRedis_quiet (row : DbRow) : Quiet (restoreToRedis row) := by
  refine only_bind only_get fun m => only_ite (only_pure _) (only_ite (only_pure _) (only_bind (only_ask rfl) fun r => ?_))
  cases r with
  | failed => exact only_pure _
  | ok stamp => exact only_bind (only_ask rfl) fun _ => only_pure _

theorem setDbConfig_quiet (db : Option DbKind) (path : String) (value : Json) (type env : String) :
    Quiet (setDbConfig pr db path value type env) :=
  only_bind (isDbAvailable_quiet db) fun _ => only_ite (only_pure _) (only_bind (only_ask rfl) fun _ => only_pure _)

theorem writeThrough_quiet (spec : Spec) (source : Source) (value : Json) : Quiet (writeThrough pr spec source value) := by
  refine only_ite (only_bind (isDbAvailable_quiet _) fun _ => only_ite ?_ (only_pure _)) (only_pure _)
  exact only_bind (setDbConfig_quiet _ _ _ _ _) fun _ => only_pure _

/-! What the ladder finds. -/

/-- An answer of Redis that holds no value. -/
def HoldsNone (payload : Option Fields) : Prop := payload.bind (Json.lookup "value") = none

/-- Redis does not give a value. -/
inductive RedisMiss (envName : String) : Prog.Trace Reply → Status → Prop where
  | unasked : RedisMiss envName [] .error
  | failed : RedisMiss envName [⟨.redisGet envName, .failed⟩] .error
  | missing (payload : Option Fields) (stamp : Nat) (h : HoldsNone payload) :
    RedisMiss envName [⟨.redisGet envName, .ok (payload, stamp)⟩] .missing

theorem probeRedisValue_findings {envName : String} {a : Status × Json × Nat}
    (h : (probeRedisValue pr envName m).Gives t (a, m')) :
    RedisMiss envName (findings t) a.1 ∧ a.1 ≠ .ok ∨ ∃ payload, Json.lookup "value" payload = some a.2.1 ∧ a.1 = .ok ∧
      findings t = [⟨.redisGet envName, .ok (some payload, a.2.2)⟩] := by
  unfold probeRedisValue at h
  obtain ⟨first, connected, m₁, rest, hconnect, hget, rfl⟩ := gives_call h
  rw [findings_append, findings_of_only (ensureConnection_quiet pr) hconnect, List.nil_append]
  clear h hconnect
  cases connected with
  | false =>
    obtain ⟨rfl, rfl, rfl⟩ := gives_pure hget
    exact .inl ⟨.unasked, by simp⟩
  | true =>
    obtain ⟨r, last, rfl, hanswer⟩ := gives_ask hget
    clear hget
    cases r with
    | failed =>
      obtain ⟨rfl, rfl, rfl⟩ := gives_pure hanswer
      exact .inl ⟨.failed, by simp⟩
    | ok answer =>
      obtain ⟨payload, stamp⟩ := answer
      cases payload with
      | none =>
        obtain ⟨rfl, rfl, rfl⟩ := gives_pure hanswer
        exact .inl ⟨.missing none stamp rfl, by simp⟩
      | some payload =>
        dsimp only at hanswer
        cases hvalue : Json.lookup "value" payload with
        | none =>
          rw [hvalue] at hanswer
          obtain ⟨rfl, rfl, rfl⟩ := gives_pure hanswer
          exact .inl ⟨.missing (some payload) stamp hvalue, by simp⟩
        | some value =>
          rw [hvalue] at hanswer
          obtain ⟨rfl, rfl, rfl⟩ := gives_pure hanswer
          exact .inr ⟨payload, hvalue, rfl, rfl⟩

/-- Lookups in the database that give no row: each fails or finds none. -/
def SelectsMiss (ls : List (Column × String)) (t : Prog.Trace Reply) : Prop :=
  List.Forall₂ (fun l call => call = ⟨.dbSelect l.1 l.2, .failed⟩ ∨ call = ⟨.dbSelect l.1 l.2, .ok none⟩) ls t

theorem SelectsMiss.mem {ls : List (Column × String)} (h : SelectsMiss ls t) {call : (s : Stmt) × Reply s} (hcall : call ∈ t) :
    ∃ l ∈ ls, call = ⟨.dbSelect l.1 l.2, .failed⟩ ∨ call = ⟨.dbSelect l.1 l.2, .ok none⟩ := by
  induction h with
  | nil => exact absurd hcall List.not_mem_nil
  | cons hone _ ih =>
    obtain rfl | hcall := List.mem_cons.mp hcall
    · exact ⟨_, List.mem_cons_self, hone⟩
    · obtain ⟨l, hl, heq⟩ := ih hcall
      exact ⟨l, List.mem_cons_of_mem _ hl, heq⟩

theorem SelectsMiss.answers {ls : List (Column × String)} (h : SelectsMiss ls t) {l : Column × String} (hl : l ∈ ls) :
    ⟨.dbSelect l.1 l.2, .failed⟩ ∈ t ∨ ⟨.dbSelect l.1 l.2, .ok none⟩ ∈ t := by
  induction h with
  | nil => exact absurd hl List.not_mem_nil
  | cons hone _ ih =>
    obtain rfl | hl := List.mem_cons.mp hl
    · obtain rfl | rfl := hone
      · exact .inl List.mem_cons_self
      · exact .inr List.mem_cons_self
    · exact (ih hl).imp (List.mem_cons_of_mem _) (List.mem_cons_of_mem _)

/-- No lookup is made twice, so one that failed was not answered. -/
theorem SelectsMiss.once {ls : List (Column × String)} (h : SelectsMiss ls t) (hls : ls.Nodup) {l : Column × String}
    (hfailed : ⟨.dbSelect l.1 l.2, .failed⟩ ∈ t) : ⟨.dbSelect l.1 l.2, .ok none⟩ ∉ t := by
  have hother : ∀ {l' : Column × String} {answer answer' : Answer (Option Row)},
      (⟨.dbSelect l.1 l.2, answer⟩ : (s : Stmt) × Reply s) = ⟨.dbSelect l'.1 l'.2, answer'⟩ → l = l' ∧ answer = answer' := by
    intro l' answer answer' heq
    obtain ⟨hstmt, hanswer⟩ := Sigma.mk.inj heq
    injection hstmt with hcolumn hkey
    exact ⟨Prod.ext hcolumn hkey, eq_of_heq hanswer⟩
  induction h with
  | nil => exact absurd hfailed List.not_mem_nil
  | @cons head call ls t hone hrest ih =>
    intro hnone
    obtain ⟨hhead, hls⟩ := List.nodup_cons.mp hls
    -- A call of the rest is of another lookup.
    have hlater : ∀ answer : Answer (Option Row), ⟨.dbSelect l.1 l.2, answer⟩ ∈ t → l ∈ ls := by
      intro answer hcall
      obtain ⟨l', hl', heq | heq⟩ := SelectsMiss.mem hrest hcall
      · rwa [(hother heq).1]
      · rwa [(hother heq).1]
    obtain hfailed | hfailed := List.mem_cons.mp hfailed
    · obtain hnone | hnone := List.mem_cons.mp hnone
      · have hsame := hfailed.trans hnone.symm
        have hanswer := (hother hsame).2
        simp at hanswer
      · rw [← hfailed] at hone
        obtain rfl : l = head := hone.elim (fun heq => (hother heq).1) fun heq => (hother heq).1
        exact hhead (hlater _ hnone)
    · obtain hnone | hnone := List.mem_cons.mp hnone
      · rw [← hnone] at hone
        obtain rfl : l = head := hone.elim (fun heq => (hother heq).1) fun heq => (hother heq).1
        exact hhead (hlater _ hfailed)
      · exact ih hls hfailed hnone

/-- The lookups up to the one that gives a row. -/
structure FindsRow (ls : List (Column × String)) (t : Prog.Trace Reply) (row : Row) (l : Column × String)
    (missed : Prog.Trace Reply) (before after : List (Column × String)) : Prop where
  split : ls = before ++ l :: after
  misses : SelectsMiss before missed
  calls : t = missed ++ [⟨.dbSelect l.1 l.2, .ok (some row)⟩]

theorem firstRow_findings {ls : List (Column × String)} {found : Option Row} (h : (firstRow ls m).Gives t (found, m')) :
    found = none ∧ SelectsMiss ls (findings t) ∨
      ∃ row l missed before after, found = some row ∧ FindsRow ls (findings t) row l missed before after := by
  induction ls generalizing t m with
  | nil =>
    obtain ⟨rfl, rfl, rfl⟩ := gives_pure h
    exact .inl ⟨rfl, .nil⟩
  | cons l ls ih =>
    unfold firstRow at h
    obtain ⟨first, row, m₁, rest, hone, hmore, rfl⟩ := gives_call h
    clear h
    unfold executeQueryOne at hone
    obtain ⟨r, last, rfl, hanswer⟩ := gives_ask hone
    clear hone
    have hmiss : ∀ answer : Answer (Option Row), (answer = .failed ∨ answer = .ok none) → (firstRow ls m₁).Gives rest (found, m') →
        found = none ∧ SelectsMiss (l :: ls) (⟨.dbSelect l.1 l.2, answer⟩ :: findings rest) ∨
          ∃ row l' missed before after, found = some row ∧
            FindsRow (l :: ls) (⟨.dbSelect l.1 l.2, answer⟩ :: findings rest) row l' missed before after := by
      intro answer hanswer hrest
      have hone : (⟨.dbSelect l.1 l.2, answer⟩ : (s : Stmt) × Reply s) = ⟨.dbSelect l.1 l.2, .failed⟩ ∨
          (⟨.dbSelect l.1 l.2, answer⟩ : (s : Stmt) × Reply s) = ⟨.dbSelect l.1 l.2, .ok none⟩ :=
        hanswer.imp (congrArg _) (congrArg _)
      obtain ⟨hnone, hmissed⟩ | ⟨row, l', missed, before, after, hrow, hfinds⟩ := ih hrest
      · exact .inl ⟨hnone, .cons hone hmissed⟩
      · refine .inr ⟨row, l', _ :: missed, l :: before, after, hrow, ⟨?_, .cons hone hfinds.misses, ?_⟩⟩
        · rw [hfinds.split, List.cons_append]
        · rw [hfinds.calls, List.cons_append]
    cases r with
    | failed =>
      obtain ⟨rfl, rfl, rfl⟩ := gives_pure hanswer
      exact hmiss .failed (.inl rfl) hmore
    | ok answer =>
      cases answer with
      | none =>
        obtain ⟨rfl, rfl, rfl⟩ := gives_pure hanswer
        exact hmiss (.ok none) (.inr rfl) hmore
      | some row =>
        obtain ⟨rfl, rfl, rfl⟩ := gives_pure hanswer
        obtain ⟨rfl, rfl, rfl⟩ := gives_pure hmore
        exact .inr ⟨row, l, [], [], ls, rfl, ⟨rfl, .nil, rfl⟩⟩

theorem dbMissRecent_findings {envName : String} {recent : Bool} (h : (dbMissRecent pr envName m).Gives t (recent, m')) :
    findings t = if recent then [⟨.note (.memo envName), ()⟩] else [] := by
  unfold dbMissRecent at h
  have hmemo := gives_get h
  clear h
  cases hseen : m.dbMissAt.get envName with
  | none =>
    rw [hseen] at hmemo
    obtain ⟨rfl, rfl, rfl⟩ := gives_pure hmemo
    rfl
  | some since =>
    rw [hseen] at hmemo
    obtain ⟨now, rest, rfl, hnow⟩ := gives_ask hmemo
    clear hmemo
    split at hnow
    · obtain ⟨r, last, rfl, hlast⟩ := gives_ask hnow
      obtain ⟨rfl, rfl, rfl⟩ := gives_pure hlast
      rfl
    · obtain ⟨rfl, rfl, rfl⟩ := gives_pure hnow
      rfl

/-- What the database answers. -/
inductive DbAnswer (pr : Process) (envName configPath : String) : Prog.Trace Reply → Status → Option DbRow → Prop where
  | absent (h : pr.managerDb = none) : DbAnswer pr envName configPath [] .missing none
  | unavailable (h : pr.managerDb ≠ none) : DbAnswer pr envName configPath [] .error none
  | row (h : pr.managerDb ≠ none) (t : Prog.Trace Reply) (row : Row) (l : Column × String) (missed : Prog.Trace Reply)
    (before after : List (Column × String)) (ht : FindsRow (lookups envName configPath) t row l missed before after) :
    DbAnswer pr envName configPath t .ok (some (readRow pr envName configPath row))
  | missing (t : Prog.Trace Reply) (h : pr.managerDb ≠ none) (ht : SelectsMiss (lookups envName configPath) t) :
    DbAnswer pr envName configPath t .missing none

theorem probeDbRow_findings {envName configPath : String} {a : Status × Option DbRow}
    (h : (probeDbRow pr envName configPath m).Gives t (a, m')) : DbAnswer pr envName configPath (findings t) a.1 a.2 := by
  unfold probeDbRow at h
  by_cases hdb : pr.managerDb = none
  · rw [if_pos (by simp [hdb])] at h
    obtain ⟨rfl, rfl, rfl⟩ := gives_pure h
    exact .absent hdb
  · rw [if_neg (by simpa using hdb)] at h
    obtain ⟨first, available, m₁, rest, hfirst, hrest, rfl⟩ := gives_call h
    rw [findings_append, findings_of_only (isDbAvailable_quiet _) hfirst, List.nil_append]
    clear h
    cases available with
    | false =>
      obtain ⟨rfl, rfl, rfl⟩ := gives_pure hrest
      exact .unavailable hdb
    | true =>
      obtain ⟨rows, found, m₂, last, hrows, hlast, rfl⟩ := gives_call hrest
      clear hrest
      rw [findings_append]
      obtain ⟨rfl, hmissed⟩ | ⟨row, l, missed, before, after, rfl, hfinds⟩ := firstRow_findings hrows
      · obtain ⟨rfl, rfl, rfl⟩ := gives_pure hlast
        rw [findings_nil, List.append_nil]
        exact .missing _ hdb hmissed
      · obtain ⟨rfl, rfl, rfl⟩ := gives_pure hlast
        rw [findings_nil, List.append_nil]
        exact .row hdb _ row l missed before after hfinds

/-- What the ladder finds, and whether the registered default follows. -/
inductive Ladder (pr : Process) (envName configPath : String) : Prog.Trace Reply → Probe → Prop where
  | served (probe : Probe) : Ladder pr envName configPath [⟨.note (.served envName probe), ()⟩] probe
  | redis (payload : Fields) (value : Json) (stamp : Nat) (h : Json.lookup "value" payload = some value) :
    Ladder pr envName configPath [⟨.redisGet envName, .ok (some payload, stamp)⟩] ⟨.ok, value, .redis, stamp⟩
  | memo (t : Prog.Trace Reply) (status : Status) (stamp : Nat) (h : RedisMiss envName t status) :
    Ladder pr envName configPath (t ++ [⟨.note (.memo envName), ()⟩])
      ⟨if status = .error then .error else .missing, .null, .none, stamp⟩
  | row (t u : Prog.Trace Reply) (status : Status) (row : DbRow) (stamp : Nat) (h : RedisMiss envName t status)
    (hrow : DbAnswer pr envName configPath u .ok (some row)) : Ladder pr envName configPath (t ++ u) ⟨.ok, row.value, .db, stamp⟩
  | nothing (t u : Prog.Trace Reply) (status db : Status) (stamp : Nat) (h : RedisMiss envName t status)
    (hdb : DbAnswer pr envName configPath u db none) :
    Ladder pr envName configPath (t ++ u)
      ⟨if status = .error || db = .error then .error else .missing, .null, .none, stamp⟩

theorem probeValueUncached_findings {envName configPath : String} {probe : Probe}
    (h : (probeValueUncached pr envName configPath m).Gives t (probe, m')) : Ladder pr envName configPath (findings t) probe := by
  unfold probeValueUncached at h
  obtain ⟨first, a, m₁, rest, hredis, hrest, rfl⟩ := gives_call h
  clear h
  obtain ⟨status, value, stamp⟩ := a
  rw [findings_append]
  obtain ⟨hmiss, hstatus⟩ | ⟨payload, hvalue, hstatus, heq⟩ := probeRedisValue_findings hredis
  · dsimp only at hmiss hstatus hrest
    rw [if_neg hstatus] at hrest
    obtain ⟨memo, recent, m₂, rest₂, hmemo, hrest₂, rfl⟩ := gives_call hrest
    clear hrest
    rw [findings_append, dbMissRecent_findings hmemo]
    cases recent with
    | true =>
      obtain ⟨rfl, rfl, rfl⟩ := gives_pure hrest₂
      exact .memo _ status stamp hmiss
    | false =>
      obtain ⟨db, b, m₃, rest₃, hdb, hrest₃, rfl⟩ := gives_call hrest₂
      clear hrest₂
      obtain ⟨dbStatus, row⟩ := b
      obtain ⟨noted, _, m₄, rest₄, hnoted, hrest₄, rfl⟩ := gives_call hrest₃
      clear hrest₃
      have hanswer := probeDbRow_findings hdb
      rw [findings_append, findings_append, findings_of_only (rememberDbMiss_quiet _ _) hnoted, if_neg Bool.false_ne_true,
        List.nil_append, List.nil_append]
      dsimp only at hanswer hrest₄
      generalize findings db = asked at hanswer ⊢
      cases hanswer with
      | row hsome asked row l missed before after hfinds =>
        have hrow := DbAnswer.row hsome asked row l missed before after hfinds
        dsimp only at hrest₄
        split at hrest₄
        · obtain ⟨restored, _, m₅, last, hrestored, hlast, rfl⟩ := gives_call hrest₄
          obtain ⟨rfl, rfl, rfl⟩ := gives_pure hlast
          rw [findings_append, findings_of_only (restoreToRedis_quiet _) hrestored, List.nil_append, findings_nil, List.append_nil]
          exact .row _ _ status _ stamp hmiss hrow
        · obtain ⟨rfl, rfl, rfl⟩ := gives_pure hrest₄
          rw [findings_nil, List.append_nil]
          exact .row _ _ status _ stamp hmiss hrow
      | absent hnone =>
        obtain ⟨rfl, rfl, rfl⟩ := gives_pure hrest₄
        rw [findings_nil]
        exact .nothing _ _ status .missing stamp hmiss (.absent hnone)
      | unavailable hsome =>
        obtain ⟨rfl, rfl, rfl⟩ := gives_pure hrest₄
        rw [findings_nil]
        exact .nothing _ _ status .error stamp hmiss (.unavailable hsome)
      | missing t hsome hmissed =>
        obtain ⟨rfl, rfl, rfl⟩ := gives_pure hrest₄
        rw [findings_nil, List.append_nil]
        exact .nothing _ _ status .missing stamp hmiss (.missing _ hsome hmissed)
  · dsimp only at hvalue hstatus hrest heq
    rw [if_pos hstatus] at hrest
    obtain ⟨rfl, rfl, rfl⟩ := gives_pure hrest
    rw [heq, findings_nil, List.append_nil]
    exact .redis payload value stamp hvalue

theorem remembered_findings {key : String × String} {version : Option Int} {found : Option Probe}
    (h : (remembered pr key version m).Gives t (found, m')) :
    findings t = found.toList.map fun probe => ⟨.note (.served key.1 probe), ()⟩ := by
  have hdrop : ∀ {u : Prog.Trace Reply}, ((do
      modify fun m => { m with vc := { m.vc with values := m.vc.values.erase key } }
      return none : Call (Option Probe)) m).Gives u (found, m') → u = [] ∧ found = none := by
    intro u hu
    have hnone := gives_modify hu
    obtain ⟨rfl, rfl, -⟩ := gives_pure hnone
    exact ⟨rfl, rfl⟩
  unfold remembered at h
  have hhit := gives_get h
  clear h
  cases version with
  | none =>
    obtain ⟨rfl, rfl, -⟩ := gives_pure hhit
    rfl
  | some v =>
    cases hkept : m.vc.values.get key with
    | none =>
      rw [hkept] at hhit
      obtain ⟨rfl, rfl, -⟩ := gives_pure hhit
      rfl
    | some hit =>
      rw [hkept] at hhit
      dsimp only at hhit
      split at hhit
      · obtain ⟨now, rest, rfl, hnow⟩ := gives_ask hhit
        split at hnow
        · obtain ⟨r, last, rfl, hlast⟩ := gives_ask hnow
          obtain ⟨rfl, rfl, -⟩ := gives_pure hlast
          rfl
        · obtain ⟨rfl, rfl⟩ := hdrop hnow
          rfl
      · obtain ⟨rfl, rfl⟩ := hdrop hhit
        rfl

theorem probeValue_findings {envName configPath : String} {probe : Probe}
    (h : (probeValue pr envName configPath m).Gives t (probe, m')) : Ladder pr envName configPath (findings t) probe := by
  unfold probeValue at h
  split at h
  · exact probeValueUncached_findings h
  · obtain ⟨known, version, m₁, rest, hknown, hrest, rfl⟩ := gives_call h
    obtain ⟨hits, found, m₂, last, hhits, hlast, rfl⟩ := gives_call hrest
    clear h hrest
    rw [findings_append, findings_of_only (knownVersion_quiet pr) hknown, List.nil_append, findings_append,
      remembered_findings hhits]
    cases found with
    | some probe =>
      obtain ⟨rfl, rfl, rfl⟩ := gives_pure hlast
      exact .served probe
    | none =>
      obtain ⟨asked, probe', m₃, rest₃, hasked, hrest₃, rfl⟩ := gives_call hlast
      obtain ⟨noted, _, m₄, rest₄, hnoted, hrest₄, rfl⟩ := gives_call hrest₃
      obtain ⟨rfl, rfl, rfl⟩ := gives_pure hrest₄
      rw [findings_append, findings_append, findings_of_only (remember_quiet _ _ _) hnoted, findings_nil, List.append_nil,
        List.append_nil]
      exact probeValueUncached_findings hasked

end XgenSdk.Config
