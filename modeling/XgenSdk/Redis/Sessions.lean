import XgenSdk.Redis.Stored

/-! Calls on one session by any number of processes, one command at a time: when an
update that another one began to make is lost, and when a deleted session comes back. -/
namespace XgenSdk.RedisClient
open XgenSdk.Py XgenSdk.Interleave

inductive SessionCall (T : Type) where
  | update (field : String) (value : Data T)
  | delete
  | save (sessionData : Fields T) (ttl : Option Int)

def SessionCall.isUpdate {T : Type} : SessionCall T → Bool
  | .update .. => true
  | _ => false

def SessionCall.isSave {T : Type} : SessionCall T → Bool
  | .save .. => true
  | _ => false

variable {ι T : Type} (lib : Libraries T) (client : Client) (sessionId : String)

def SessionCall.prog : SessionCall T → Call Bool
  | .update field value => updateSessionField lib client sessionId field value
  | .delete => deleteSession client sessionId
  | .save sessionData ttl => saveSession lib client sessionId sessionData ttl

abbrev Configs (ι : Type) : Type := Config ι Redis Reply Unit Bool

/-- Every process reaches Redis. -/
def serve : ι → (c : Command) → Redis → Reply c × Redis := fun _ => exec reachable

/-- No key expires. -/
def noEvent (e : Empty) : Redis → Redis := e.elim

/-- All calls are still to be made. -/
def start (calls : ι → SessionCall T) (r : Redis) : Configs ι := ⟨r, fun i => ⟨[], (calls i).prog lib client sessionId⟩⟩

/-- The next command sets the key. -/
def setsNext (key : String) : Call Bool → Bool
  | .act (.set other _) _ => other == key
  | _ => false

/-- While an update has read the session and is to write it, no other call changes it. -/
def Undisturbed [DecidableEq ι] (calls : ι → SessionCall T) (c : Configs ι) (m : Move ι Empty) : Prop :=
  ∀ j, m ≠ .issue j → (calls j).isUpdate = true → setsNext (client.sessionKey sessionId) (c.threads j).rest = true →
    (c.move serve noEvent m).shared (client.sessionKey sessionId) = c.shared (client.sessionKey sessionId)

/-- No `save_session` of a caller changes the session. -/
def NotSaved [DecidableEq ι] (calls : ι → SessionCall T) (c : Configs ι) (m : Move ι Empty) : Prop :=
  ∀ j, m = .issue j → (calls j).isSave = true →
    (c.move serve noEvent m).shared (client.sessionKey sessionId) = c.shared (client.sessionKey sessionId)

/-! The calls, command by command. -/

/-- The text of a session after a field of it is set; `none` where the update gives up. -/
def updated (field : String) (value : Data T) (text : String) : Option String :=
  if text = "" then none
  else (readSession lib text).bind fun fields =>
    if fields.isEmpty then none
    else (jsonOfFields (serializeSessionData lib (Dict.setEntries field value fields))).bind fun json => lib.dumps (.obj json)

/-- The last command of a save, once the text is stored. -/
def addToSessions (reply : Option (Option String)) : Call Bool :=
  reply.elim (.done false) fun _ => .act (.sadd client.sessionsKey sessionId) fun r => r.elim (.done false) fun _ => .done true

def removeFromSessions (reply : Option (Option String)) : Call Bool :=
  reply.elim (.done false) fun _ => .act (.srem client.sessionsKey sessionId) fun r => r.elim (.done false) fun _ => .done true

/-- What is left of an update once it has read. -/
def afterGet (field : String) (value : Data T) (reply : Option (Option String)) : Call Bool :=
  (reply.join.bind (updated lib field value)).elim (.done false) fun text =>
    .act (.set (client.sessionKey sessionId) text) (addToSessions client sessionId)

variable {lib : Libraries T} {client : Client} {sessionId : String}

theorem saveSession_eq (hup : client.connectionAvailable = true) (data : Fields T) (ttl : Option Int) :
    saveSession lib client sessionId data ttl =
      ((jsonOfFields (serializeSessionData lib data)).bind fun json => lib.dumps (.obj json)).elim (.done false) fun text =>
        .act (store (client.sessionKey sessionId) text ttl) (addToSessions client sessionId) := by
  rw [saveSession, if_pos hup]
  cases jsonOfFields (serializeSessionData lib data) with
  | none => rfl
  | some json =>
    cases hdumps : lib.dumps (.obj json) with
    | none => simp [ofOption, hdumps, orReturn]
    | some text =>
      simp only [ofOption, hdumps, Option.elim_some, Option.bind_some, Prog.done_bind, call, Prog.act_bind, orReturn]
      congr 1
      funext reply
      cases reply with
      | none => rfl
      | some o =>
        simp only [addToSessions, Option.elim_some, Prog.done_bind, orReturn]
        congr 1
        funext reply
        cases reply <;> rfl

theorem deleteSession_eq (hup : client.connectionAvailable = true) : deleteSession client sessionId =
    .act (.delete (client.sessionKey sessionId)) (removeFromSessions client sessionId) := by
  rw [deleteSession, if_pos hup]
  simp only [call, Prog.act_bind, orReturn]
  congr 1
  funext reply
  cases reply with
  | none => rfl
  | some o =>
    simp only [removeFromSessions, Option.elim_some, Prog.done_bind, orReturn]
    congr 1
    funext reply
    cases reply <;> rfl

theorem getSession_eq (hup : client.connectionAvailable = true) : getSession lib client sessionId =
    .act (.get (client.sessionKey sessionId)) fun reply =>
      .done (reply.join.bind fun text => if text = "" then none else readSession lib text) := by
  rw [getSession, if_pos hup]
  simp only [call, Prog.act_bind, orReturn]
  congr 1
  funext reply
  cases reply with
  | none => rfl
  | some found =>
    cases found with
    | none => rfl
    | some text =>
      simp only [Option.elim_some, Prog.done_bind, Option.join_some, Option.bind_some]
      split
      · rfl
      · cases readSession lib text <;> rfl

theorem orReturn_of_total {α : Type} (fallback : α) {p : Call α} (h : p.Total) : orReturn fallback p = p := by
  induction p with
  | done a => rfl
  | raise e => exact h.elim
  | act c next ih => exact congrArg (Prog.act c) (funext fun reply => ih reply (h reply))

theorem total_addToSessions (reply : Option (Option String)) : (addToSessions client sessionId reply).Total := by
  cases reply with
  | none => trivial
  | some o =>
    intro reply
    cases reply <;> trivial

theorem updateSessionField_eq (hup : client.connectionAvailable = true) (field : String) (value : Data T) :
    updateSessionField lib client sessionId field value =
      .act (.get (client.sessionKey sessionId)) (afterGet lib client sessionId field value) := by
  rw [updateSessionField, if_pos hup, getSession_eq hup, Prog.act_bind, orReturn]
  congr 1
  funext reply
  rw [afterGet, Prog.done_bind]
  cases reply.join with
  | none => rfl
  | some text =>
    rw [Option.bind_some, Option.bind_some, updated]
    by_cases hempty : text = ""
    · rw [if_pos hempty, if_pos hempty]
      rfl
    · rw [if_neg hempty, if_neg hempty]
      cases readSession lib text with
      | none => rfl
      | some fields =>
        dsimp only [Option.bind_some]
        by_cases hfields : fields.isEmpty = true
        · rw [if_pos hfields, if_pos hfields]
          rfl
        · rw [if_neg hfields, if_neg hfields, saveSession_eq hup]
          cases (jsonOfFields (serializeSessionData lib (Dict.setEntries field value fields))).bind fun json => lib.dumps (.obj json) with
          | none => rfl
          | some written => exact orReturn_of_total false fun reply => total_addToSessions reply

/-! Where a call stands. -/

/-- Commands that leave the session as it is. -/
def Aside (client : Client) (c : Command) : Prop := ∃ member, c = .sadd client.sessionsKey member ∨ c = .srem client.sessionsKey member

/-- What a call does to the session where it changes it. -/
def Writes (lib : Libraries T) (client : Client) (sessionId : String) (call : SessionCall T) (r r' : Redis) : Prop :=
  match call with
  | .update field value => ∃ text text', r (client.sessionKey sessionId) = some (.text text) ∧
      updated lib field value text = some text' ∧ r' (client.sessionKey sessionId) = some (.text text')
  | .delete => r' (client.sessionKey sessionId) = none
  | .save .. => True

/-- A call is to be made, is an update that has read and not written, or has done what it does to the session;
what is kept from then on is `kept`, unless the call gives up. -/
inductive Stands (lib : Libraries T) (client : Client) (sessionId : String) (kept : SessionCall T → Redis → Prop) (r : Redis)
    (call : SessionCall T) : Call Bool → Prop
  | start : Stands lib client sessionId kept r call (call.prog lib client sessionId)
  | reading {field value text text'} : call = .update field value → r (client.sessionKey sessionId) = some (.text text) →
      updated lib field value text = some text' →
      Stands lib client sessionId kept r call (.act (.set (client.sessionKey sessionId) text') (addToSessions client sessionId))
  | aside {p} : p.Only (Aside client) → (p ≠ .done false → kept call r) → Stands lib client sessionId kept r call p

/-- What the calls establish, each for itself, and no other one breaks. -/
structure Keeping (lib : Libraries T) (client : Client) (sessionId : String) (calls : ι → SessionCall T)
    (kept : SessionCall T → Redis → Prop) : Prop where
  same : ∀ call r r', r' (client.sessionKey sessionId) = r (client.sessionKey sessionId) → kept call r → kept call r'
  own : ∀ i r r', Writes lib client sessionId (calls i) r r' → kept (calls i) r'
  others : ∀ i j r r', i ≠ j → Writes lib client sessionId (calls i) r r' → kept (calls j) r → kept (calls j) r'

section Steps
variable {kept : SessionCall T → Redis → Prop} {calls : ι → SessionCall T} {i j : ι} {r r' : Redis} {p : Call Bool} {c : Command}
  {next : Option (Option String) → Call Bool}

theorem Aside.run (h : Aside client c) (r : Redis) : (c.run r).2 (client.sessionKey sessionId) = r (client.sessionKey sessionId) := by
  obtain ⟨member, rfl | rfl⟩ := h
  · exact sadd_run (sessionKey_ne sessionId) r
  · exact srem_run (sessionKey_ne sessionId) r

theorem only_addToSessions (reply : Option (Option String)) : (addToSessions client sessionId reply).Only (Aside client) := by
  cases reply with
  | none => trivial
  | some o =>
    refine ⟨⟨sessionId, .inl rfl⟩, fun reply => ?_⟩
    cases reply <;> trivial

theorem only_removeFromSessions (reply : Option (Option String)) : (removeFromSessions client sessionId reply).Only (Aside client) := by
  cases reply with
  | none => trivial
  | some o =>
    refine ⟨⟨sessionId, .inr rfl⟩, fun reply => ?_⟩
    cases reply <;> trivial

theorem prog_down (hup : ¬ client.connectionAvailable = true) (call : SessionCall T) : call.prog lib client sessionId = .done false := by
  cases call with
  | update field value => exact if_neg hup
  | delete => exact if_neg hup
  | save data ttl => exact if_neg hup

/-- The first command of a call. -/
theorem start_step (hkeep : Keeping lib client sessionId calls kept) (hp : (calls i).prog lib client sessionId = .act c next) (r : Redis) :
    Stands lib client sessionId kept (c.run r).2 (calls i) (next (c.run r).1) ∧
      ((c.run r).2 (client.sessionKey sessionId) = r (client.sessionKey sessionId) ∨
        Writes lib client sessionId (calls i) r (c.run r).2) := by
  by_cases hup : client.connectionAvailable = true
  · have hown := hkeep.own i
    cases hcall : calls i with
    | update field value =>
      rw [hcall, SessionCall.prog, updateSessionField_eq hup] at hp
      injection hp with hc hnext
      subst hc
      subst hnext
      have hsame : ((Command.get (client.sessionKey sessionId)).run r).2 = r := by
        rw [Command.run]
        cases r (client.sessionKey sessionId) with
        | none => rfl
        | some e => cases e <;> rfl
      rw [hsame]
      refine ⟨?_, .inl rfl⟩
      cases hr : ((Command.get (client.sessionKey sessionId)).run r).1.join.bind (updated lib field value) with
      | none =>
        rw [afterGet, hr]
        exact .aside trivial fun h => absurd rfl h
      | some text' =>
        rw [afterGet, hr]
        obtain ⟨text, hread, hupdated⟩ := Option.bind_eq_some_iff.mp hr
        refine .reading rfl ?_ hupdated
        rw [Command.run] at hread
        cases hentry : r (client.sessionKey sessionId) with
        | none => simp [hentry] at hread
        | some e =>
          cases e with
          | text data => simpa [hentry] using hread
          | members members => simp [hentry] at hread
    | delete =>
      rw [hcall, SessionCall.prog, deleteSession_eq hup] at hp
      injection hp with hc hnext
      subst hc
      subst hnext
      have hwrites : Writes lib client sessionId (calls i) r ((Command.delete (client.sessionKey sessionId)).run r).2 := by
        rw [hcall]
        exact Function.update_self _ _ _
      rw [← hcall]
      exact ⟨.aside (only_removeFromSessions _) fun _ => hown _ _ hwrites, .inr hwrites⟩
    | save data ttl =>
      rw [hcall, SessionCall.prog, saveSession_eq hup] at hp
      have hwrites : ∀ r', Writes lib client sessionId (calls i) r r' := by
        intro r'
        rw [hcall]
        trivial
      rw [← hcall]
      cases htext : (jsonOfFields (serializeSessionData lib data)).bind fun json => lib.dumps (.obj json) with
      | none =>
        rw [htext] at hp
        cases hp
      | some text =>
        rw [htext, Option.elim_some] at hp
        injection hp with hc hnext
        subst hnext
        exact ⟨.aside (only_addToSessions _) fun _ => hown _ _ (hwrites _), .inr (hwrites _)⟩
  · rw [prog_down hup] at hp
    cases hp

/-- What a command of a call does to the session, and where the call stands then. -/
theorem Stands.step (hkeep : Keeping lib client sessionId calls kept) (h : Stands lib client sessionId kept r (calls i) (.act c next)) :
    Stands lib client sessionId kept (c.run r).2 (calls i) (next (c.run r).1) ∧
      ((c.run r).2 (client.sessionKey sessionId) = r (client.sessionKey sessionId) ∨
        Writes lib client sessionId (calls i) r (c.run r).2) := by
  generalize hp : (Prog.act c next : Call Bool) = p at h
  cases h with
  | start => exact start_step hkeep hp.symm r
  | @reading field value text text' hcall hread hupdated =>
    injection hp with hc hnext
    subst hc
    subst hnext
    have hwrites : Writes lib client sessionId (calls i) r ((Command.set (client.sessionKey sessionId) text').run r).2 := by
      rw [hcall]
      exact ⟨text, text', hread, hupdated, Function.update_self _ _ _⟩
    exact ⟨.aside (only_addToSessions _) fun _ => hkeep.own i _ _ hwrites, .inr hwrites⟩
  | aside honly hkept =>
    subst hp
    have hsame := @Aside.run client sessionId c honly.1 r
    refine ⟨.aside (honly.2 _) fun _ => hkeep.same _ _ _ hsame (hkept ?_), .inl hsame⟩
    exact fun hdone => by cases hdone

/-- Where a call stands when another one has moved. -/
theorem Stands.others (hkeep : Keeping lib client sessionId calls kept) (hij : i ≠ j) (h : Stands lib client sessionId kept r (calls j) p)
    (hmove : r' (client.sessionKey sessionId) = r (client.sessionKey sessionId) ∨ Writes lib client sessionId (calls i) r r')
    (hundisturbed : (calls j).isUpdate = true → setsNext (client.sessionKey sessionId) p = true →
      r' (client.sessionKey sessionId) = r (client.sessionKey sessionId)) :
    Stands lib client sessionId kept r' (calls j) p := by
  cases h with
  | start => exact .start
  | reading hcall hread hupdated =>
    refine .reading hcall ?_ hupdated
    rw [hundisturbed (by rw [hcall]; rfl) (beq_self_eq_true _), hread]
  | aside honly hkept =>
    refine .aside honly fun hp => ?_
    obtain hsame | hwrites := hmove
    · exact hkeep.same _ _ _ hsame (hkept hp)
    · exact hkeep.others i j _ _ hij hwrites (hkept hp)

end Steps

/-! Runs. -/

section Runs
variable [DecidableEq ι] {kept : SessionCall T → Redis → Prop} {calls : ι → SessionCall T} {c : Configs ι} {ms : List (Move ι Empty)}
  {r : Redis} {i : ι}

omit [DecidableEq ι] in
theorem serve_run (i : ι) (c : Command) (r : Redis) : serve i c r = c.run r := exec_reachable c r

/-- Every call stands somewhere. -/
def AllStand (lib : Libraries T) (client : Client) (sessionId : String) (kept : SessionCall T → Redis → Prop) (calls : ι → SessionCall T)
    (c : Configs ι) : Prop :=
  ∀ i, Stands lib client sessionId kept c.shared (calls i) (c.threads i).rest

/-- One move, and what it does to the session. -/
theorem AllStand.move (hkeep : Keeping lib client sessionId calls kept) (h : AllStand lib client sessionId kept calls c)
    {m : Move ι Empty} (hundisturbed : Undisturbed client sessionId calls c m) :
    AllStand lib client sessionId kept calls (c.move serve noEvent m) ∧
      ((c.move serve noEvent m).shared (client.sessionKey sessionId) = c.shared (client.sessionKey sessionId) ∨
        ∃ i, m = .issue i ∧ Writes lib client sessionId (calls i) c.shared (c.move serve noEvent m).shared) := by
  cases m with
  | env e => exact e.elim
  | issue i =>
    have hstand := h i
    cases hrest : (c.threads i).rest with
    | done b =>
      have hmove : c.move serve noEvent (.issue i : Move ι Empty) = c := by rw [Config.move, hrest]
      rw [hmove]
      exact ⟨h, .inl rfl⟩
    | raise e =>
      have hmove : c.move serve noEvent (.issue i : Move ι Empty) = c := by rw [Config.move, hrest]
      rw [hmove]
      exact ⟨h, .inl rfl⟩
    | act s next =>
      rw [hrest] at hstand
      obtain ⟨hself, hdoes⟩ := hstand.step hkeep
      have hmove : c.move serve noEvent (.issue i : Move ι Empty) = ⟨(s.run c.shared).2,
          Function.update c.threads i ⟨(c.threads i).issued ++ [s], next (s.run c.shared).1⟩⟩ := by
        rw [Config.move, hrest]
        dsimp only
        rw [serve_run]
      rw [Undisturbed, hmove] at hundisturbed
      rw [hmove]
      refine ⟨fun j => ?_, hdoes.imp_right fun hwrites => ⟨i, rfl, hwrites⟩⟩
      by_cases hj : j = i
      · subst hj
        dsimp only
        rw [Function.update_self]
        exact hself
      · dsimp only
        rw [Function.update_of_ne hj]
        exact (h j).others hkeep (Ne.symm hj) hdoes (hundisturbed j fun heq => hj (Move.issue.inj heq).symm)

theorem AllStand.play (hkeep : Keeping lib client sessionId calls kept) (h : AllStand lib client sessionId kept calls c)
    (hlegal : Legal serve noEvent (Undisturbed client sessionId calls) c ms) :
    AllStand lib client sessionId kept calls (play serve noEvent c ms) := by
  induction ms generalizing c with
  | nil => exact h
  | cons m ms ih => exact ih (h.move hkeep hlegal.1).1 hlegal.2

omit [DecidableEq ι] in
theorem start_stands (calls : ι → SessionCall T) (r : Redis) : AllStand lib client sessionId kept calls (start lib client sessionId calls r) :=
  fun _ => .start

omit [DecidableEq ι] in
/-- A call that has returned `True` has done what it does. -/
theorem kept_of_done (h : AllStand lib client sessionId kept calls c) (hdone : (c.threads i).rest = .done true) :
    kept (calls i) c.shared := by
  have hstand := h i
  rw [hdone] at hstand
  generalize hp : (Prog.done true : Call Bool) = p at hstand
  cases hstand with
  | start =>
    -- No program is over with `True` before its first command.
    by_cases hup : client.connectionAvailable = true
    · cases hcall : calls i with
      | update field value =>
        rw [hcall, SessionCall.prog, updateSessionField_eq hup] at hp
        cases hp
      | delete =>
        rw [hcall, SessionCall.prog, deleteSession_eq hup] at hp
        cases hp
      | save data ttl =>
        rw [hcall, SessionCall.prog, saveSession_eq hup] at hp
        cases htext : (jsonOfFields (serializeSessionData lib data)).bind fun json => lib.dumps (.obj json) with
        | none =>
          rw [htext] at hp
          cases hp
        | some text =>
          rw [htext] at hp
          cases hp
    · rw [prog_down hup] at hp
      cases hp
  | reading => cases hp
  | aside _ hkept => exact hkept (by rw [← hp]; simp)

/-- Without a connection nothing happens. -/
theorem play_down (hup : ¬ client.connectionAvailable = true) (calls : ι → SessionCall T) (r : Redis) (ms : List (Move ι Empty)) :
    play serve noEvent (start lib client sessionId calls r) ms = start lib client sessionId calls r := by
  induction ms with
  | nil => rfl
  | cons m ms ih =>
    cases m with
    | env e => exact e.elim
    | issue i =>
      have hmove : (start lib client sessionId calls r).move serve noEvent (.issue i : Move ι Empty) = start lib client sessionId calls r := by
        rw [Config.move, start]
        dsimp only
        rw [prog_down hup]
      rw [play, List.foldl_cons, hmove]
      exact ih

/-- A call that is not as it was has made its first move. -/
theorem first_move (h : (play serve noEvent c ms).threads i ≠ c.threads i) :
    ∃ front back, ms = front ++ .issue i :: back ∧ (play serve noEvent c front).threads i = c.threads i := by
  induction ms generalizing c with
  | nil => exact absurd rfl h
  | cons m ms ih =>
    by_cases hm : m = .issue i
    · exact ⟨[], ms, by rw [hm]; rfl, rfl⟩
    · have hsame : (c.move serve noEvent m).threads i = c.threads i := by
        cases m with
        | env e => exact e.elim
        | issue j =>
          have hij : i ≠ j := fun h => hm (by rw [h])
          rw [Config.move]
          split
          · exact Function.update_of_ne hij _ _
          · rfl
      obtain ⟨front, back, hsplit, hfront⟩ := ih (by rw [hsame]; exact h)
      exact ⟨m :: front, back, by rw [hsplit]; rfl, hfront.trans hsame⟩

/-! A deleted session. -/

omit [DecidableEq ι] in
theorem keeping_nothing (calls : ι → SessionCall T) : Keeping lib client sessionId calls fun _ _ => True :=
  ⟨fun _ _ _ _ _ => trivial, fun _ _ _ _ => trivial, fun _ _ _ _ _ _ _ => trivial⟩

/-- A session that is not there is not stored by an update. -/
theorem gone_move (h : AllStand lib client sessionId (fun _ _ => True) calls c) {m : Move ι Empty}
    (hundisturbed : Undisturbed client sessionId calls c m) (hsaved : NotSaved client sessionId calls c m)
    (hgone : c.shared (client.sessionKey sessionId) = none) :
    (c.move serve noEvent m).shared (client.sessionKey sessionId) = none := by
  obtain hsame | ⟨i, hm, hwrites⟩ := (h.move (keeping_nothing calls) hundisturbed).2
  · rw [hsame, hgone]
  · cases hcall : calls i with
    | update field value =>
      rw [hcall] at hwrites
      obtain ⟨text, text', hread, -, -⟩ := hwrites
      rw [hgone] at hread
      cases hread
    | delete =>
      rw [hcall] at hwrites
      exact hwrites
    | save data ttl => rw [hsaved i hm (by rw [hcall]; rfl), hgone]

theorem gone_play (h : AllStand lib client sessionId (fun _ _ => True) calls c)
    (hlegal : Legal serve noEvent (Undisturbed client sessionId calls) c ms)
    (hsaved : Legal serve noEvent (NotSaved client sessionId calls) c ms) (hgone : c.shared (client.sessionKey sessionId) = none) :
    (play serve noEvent c ms).shared (client.sessionKey sessionId) = none := by
  induction ms generalizing c with
  | nil => exact hgone
  | cons m ms ih =>
    exact ih (h.move (keeping_nothing calls) hlegal.1).1 hlegal.2 hsaved.2 (gone_move h hlegal.1 hsaved.1 hgone)

/-- From the first command of a `delete_session` on, the session is gone until a caller saves it. -/
theorem deleted_gone (hlegal : Legal serve noEvent (Undisturbed client sessionId calls) (start lib client sessionId calls r) ms)
    (hcall : calls i = .delete) (hdone : ((play serve noEvent (start lib client sessionId calls r) ms).threads i).rest = .done true) :
    ∃ front back, ms = front ++ .issue i :: back ∧
      ((play serve noEvent (start lib client sessionId calls r) front).threads i).rest = deleteSession client sessionId ∧
      (Legal serve noEvent (NotSaved client sessionId calls) (play serve noEvent (start lib client sessionId calls r) (front ++ [.issue i])) back →
        (play serve noEvent (start lib client sessionId calls r) ms).shared (client.sessionKey sessionId) = none) := by
  have hprog : ((start lib client sessionId calls r).threads i).rest = deleteSession client sessionId := by
    rw [start]
    dsimp only
    rw [hcall]
    rfl
  by_cases hup : client.connectionAvailable = true
  · have hmoved : (play serve noEvent (start lib client sessionId calls r) ms).threads i ≠ (start lib client sessionId calls r).threads i := by
      intro h
      rw [h, hprog, deleteSession_eq hup] at hdone
      cases hdone
    obtain ⟨front, back, hsplit, hfront⟩ := first_move hmoved
    refine ⟨front, back, hsplit, by rw [hfront, hprog], fun hsaved => ?_⟩
    have hms : ms = (front ++ [.issue i]) ++ back := by rw [hsplit, List.append_assoc, List.singleton_append]
    rw [hms] at hlegal ⊢
    obtain ⟨hbefore, hafter⟩ := hlegal.append
    rw [play_append]
    refine gone_play ((start_stands calls r).play (keeping_nothing calls) hbefore) hafter hsaved ?_
    rw [play_append, play, List.foldl_cons, List.foldl_nil, Config.move, hfront, hprog, deleteSession_eq hup]
    dsimp only
    rw [serve_run]
    exact Function.update_self _ _ _
  · rw [play_down hup, hprog, deleteSession, if_neg hup] at hdone
    cases hdone

end Runs

/-! What an update leaves in the session. -/

mutual

theorem restorable_value (key : String) (v : Json) : RestorableAt lib key (deserializeValue lib key v) := by
  cases v with
  | str s =>
    rw [deserializeValue, deserializeText]
    by_cases hkey : key ∈ datetimeFields
    · rw [if_pos hkey]
      cases hiso : lib.fromisoformat s with
      | none => exact fun _ => hiso
      | some t => exact hkey
    · rw [if_neg hkey]
      exact fun h => absurd h hkey
  | obj fields => exact restorable_read fields
  | _ => trivial

/-- Whatever is read, is read again as it is. -/
theorem restorable_read (fields : List (String × Json)) : Restorable lib (deserializeSessionData lib fields) := by
  cases fields with
  | nil => trivial
  | cons e fields => exact ⟨restorable_value e.1 e.2, restorable_read fields⟩

end

theorem restorable_setEntries {field : String} {value : Data T} (hvalue : RestorableAt lib field value) {fields : Fields T}
    (h : Restorable lib fields) : Restorable lib (Dict.setEntries field value fields) := by
  induction fields with
  | nil => exact ⟨hvalue, trivial⟩
  | cons e fields ih =>
    rw [Dict.setEntries]
    split
    · exact ⟨hvalue, h.2⟩
    · exact ⟨h.1, ih h.2⟩

/-- `session_data.get(field)`. -/
def fieldOf (field : String) (fields : Fields T) : Option (Data T) := (fields.find? fun e => e.1 = field).map Prod.snd

/-- What the session gives for a field. -/
def Shows (lib : Libraries T) (client : Client) (sessionId field : String) (value : Data T) (r : Redis) : Prop :=
  ∃ fields, (run reachable (getSession lib client sessionId) r).1 = some (some fields) ∧ fieldOf field fields = some value

theorem getSession_same {r r' : Redis} (h : r' (client.sessionKey sessionId) = r (client.sessionKey sessionId)) :
    (run reachable (getSession lib client sessionId) r').1 = (run reachable (getSession lib client sessionId) r).1 := by
  by_cases hup : client.connectionAvailable = true
  · have hreply : ((Command.get (client.sessionKey sessionId)).run r').1 = ((Command.get (client.sessionKey sessionId)).run r).1 := by
      rw [Command.run, Command.run, h]
      cases r (client.sessionKey sessionId) with
      | none => rfl
      | some e => cases e <;> rfl
    rw [getSession_eq hup, run, run, exec_reachable, hreply, run, run, exec_reachable]
  · rw [getSession, if_neg hup]
    rfl

theorem updated_spec {field text text' : String} {value : Data T} (h : updated lib field value text = some text') :
    ∃ fields json, text ≠ "" ∧ readSession lib text = some fields ∧
      jsonOfFields (serializeSessionData lib (Dict.setEntries field value fields)) = some json ∧ lib.dumps (.obj json) = some text' := by
  rw [updated] at h
  by_cases hempty : text = ""
  · rw [if_pos hempty] at h
    cases h
  · rw [if_neg hempty] at h
    obtain ⟨fields, hread, hrest⟩ := Option.bind_eq_some_iff.mp h
    by_cases hfields : fields.isEmpty = true
    · rw [if_pos hfields] at hrest
      cases hrest
    · rw [if_neg hfields] at hrest
      obtain ⟨json, hjson, hdumps⟩ := Option.bind_eq_some_iff.mp hrest
      exact ⟨fields, json, hempty, hread, hjson, hdumps⟩

/-- What an update reads and what is read after it. -/
theorem getSession_updated {field : String} {value : Data T} {r r' : Redis} (hup : client.connectionAvailable = true)
    (htimes : ∀ t, lib.fromisoformat (lib.isoformat t) = some t)
    (hlawful : ∀ text fields json, readSession lib text = some fields →
      jsonOfFields (serializeSessionData lib (Dict.setEntries field value fields)) = some json → Lawful lib (.obj json))
    (hvalue : RestorableAt lib field value) (h : Writes lib client sessionId (.update field value) r r') :
    ∃ fields, (run reachable (getSession lib client sessionId) r).1 = some (some fields) ∧
      (run reachable (getSession lib client sessionId) r').1 = some (some (Dict.setEntries field value fields)) := by
  obtain ⟨text, text', hread, hupdated, hwritten⟩ := h
  obtain ⟨fields, json, hne, hfields, hjson, hdumps⟩ := updated_spec hupdated
  have hlaw := hlawful text fields json hfields hjson
  have hloads := hlaw.loads_dumps text' hdumps
  have hne' : text' ≠ "" := by
    rintro rfl
    rw [hlaw.loads_empty] at hloads
    cases hloads
  have hrestorable : Restorable lib fields := by
    rw [readSession] at hfields
    cases hvalue : lib.loads text with
    | value v =>
      rw [hvalue] at hfields
      cases v with
      | obj stored =>
        rw [← Option.some.inj hfields]
        exact restorable_read stored
      | _ => cases hfields
    | decodeError =>
      rw [hvalue] at hfields
      cases hfields
    | raised =>
      rw [hvalue] at hfields
      cases hfields
  refine ⟨fields, by rw [run_getSession hup hread hne, hfields], ?_⟩
  rw [run_getSession hup hwritten hne', readSession, hloads]
  exact congrArg (fun fields => some (some fields))
    ((fields_restored htimes _ json hjson).mpr (restorable_setEntries hvalue hrestorable))

theorem fieldOf_setEntries (field other : String) (value : Data T) (fields : Fields T) :
    fieldOf other (Dict.setEntries field value fields) = if field = other then some value else fieldOf other fields :=
  Dict.find_setEntries field other value fields

/-- Each update of a field of its own is kept by the others. -/
theorem keeping_shows {calls : ι → SessionCall T} (hup : client.connectionAvailable = true)
    (htimes : ∀ t, lib.fromisoformat (lib.isoformat t) = some t)
    (hlawful : ∀ i field value text fields json, calls i = .update field value → readSession lib text = some fields →
      jsonOfFields (serializeSessionData lib (Dict.setEntries field value fields)) = some json → Lawful lib (.obj json))
    (hcalls : ∀ i, ∃ field value, calls i = .update field value ∧ RestorableAt lib field value)
    (hfields : ∀ i j field value value', calls i = .update field value → calls j = .update field value' → i = j) :
    Keeping lib client sessionId calls fun call r => ∀ field value, call = .update field value → Shows lib client sessionId field value r where
  same call r r' h hkept field value hcall := by
    obtain ⟨fields, hread, hfield⟩ := hkept field value hcall
    exact ⟨fields, (getSession_same h).trans hread, hfield⟩
  own i r r' hwrites field value hcall := by
    obtain ⟨field', value', hcall', hvalue⟩ := hcalls i
    obtain ⟨rfl, rfl⟩ := SessionCall.update.inj (hcall'.symm.trans hcall)
    rw [hcall] at hwrites
    obtain ⟨fields, -, hread⟩ := getSession_updated hup htimes (fun text fields json => hlawful i _ _ text fields json hcall) hvalue hwrites
    exact ⟨_, hread, by rw [fieldOf_setEntries, if_pos rfl]⟩
  others i j r r' hij hwrites hkept field value hcall := by
    obtain ⟨other, value', hcall', hvalue⟩ := hcalls i
    rw [hcall'] at hwrites
    obtain ⟨fields, hbefore, hafter⟩ :=
      getSession_updated hup htimes (fun text fields json => hlawful i _ _ text fields json hcall') hvalue hwrites
    obtain ⟨fields', hread, hfield⟩ := hkept field value hcall
    have hsame : fields = fields' := Option.some.inj (Option.some.inj (hbefore.symm.trans hread))
    have hne : other ≠ field := by
      rintro rfl
      exact hij (hfields i j _ _ _ hcall' hcall)
    exact ⟨_, hafter, by rw [fieldOf_setEntries, if_neg hne, hsame, hfield]⟩

/-- What the calls on one session leave of it, for every interleaving of their commands in which no other call changes the session
between the read and the write of an update. -/
theorem sessions_kept [DecidableEq ι] (calls : ι → SessionCall T) (r : Redis) (ms : List (Move ι Empty))
    (htimes : ∀ t, lib.fromisoformat (lib.isoformat t) = some t)
    (hlawful : ∀ i field value text fields json, calls i = .update field value → readSession lib text = some fields →
      jsonOfFields (serializeSessionData lib (Dict.setEntries field value fields)) = some json → Lawful lib (.obj json))
    (hlegal : Legal serve noEvent (Undisturbed client sessionId calls) (start lib client sessionId calls r) ms) :
    ((∀ i, ∃ field value, calls i = .update field value ∧ RestorableAt lib field value) →
        (∀ i j field value value', calls i = .update field value → calls j = .update field value' → i = j) →
        (∀ i, ((play serve noEvent (start lib client sessionId calls r) ms).threads i).rest = .done true) →
        ∀ i field value, calls i = .update field value →
          Shows lib client sessionId field value (play serve noEvent (start lib client sessionId calls r) ms).shared) ∧
      ∀ i, calls i = .delete → ((play serve noEvent (start lib client sessionId calls r) ms).threads i).rest = .done true →
        ∃ front back, ms = front ++ .issue i :: back ∧
          ((play serve noEvent (start lib client sessionId calls r) front).threads i).rest = deleteSession client sessionId ∧
          (Legal serve noEvent (NotSaved client sessionId calls)
              (play serve noEvent (start lib client sessionId calls r) (front ++ [.issue i])) back →
            (play serve noEvent (start lib client sessionId calls r) ms).shared (client.sessionKey sessionId) = none) := by
  refine ⟨fun hcalls hfields hdone i field value hcall => ?_, fun i hcall hdone => deleted_gone hlegal hcall hdone⟩
  by_cases hup : client.connectionAvailable = true
  · have hkeep := @keeping_shows ι T lib client sessionId calls hup htimes hlawful hcalls hfields
    exact kept_of_done ((start_stands calls r).play hkeep hlegal) (hdone i) field value hcall
  · have hover := hdone i
    rw [play_down hup, start] at hover
    dsimp only at hover
    rw [prog_down hup] at hover
    cases hover

/-- The JSON library on the texts of a session with two counters. -/
def counters : Libraries Unit where
  loads text :=
    if text = "\x7b\"a\": 0, \"b\": 0\x7d" then .value (.obj [("a", .int 0), ("b", .int 0)])
    else if text = "\x7b\"a\": 1, \"b\": 0\x7d" then .value (.obj [("a", .int 1), ("b", .int 0)])
    else if text = "\x7b\"a\": 0, \"b\": 1\x7d" then .value (.obj [("a", .int 0), ("b", .int 1)])
    else if text = "\x7b\"a\": 1, \"b\": 1\x7d" then .value (.obj [("a", .int 1), ("b", .int 1)])
    else .decodeError
  dumps v :=
    match v with
    | .obj [("a", .int x), ("b", .int y)] => some ("\x7b\"a\": " ++ toString x ++ ", \"b\": " ++ toString y ++ "\x7d")
    | _ => none
  isoformat _ := "2026-01-01T00:00:00"
  fromisoformat text := if text = "2026-01-01T00:00:00" then some () else none

/-- One caller. -/
def once : Unit → SessionCall Unit := fun _ => .update "a" (.int 1)

def bothZero : Redis :=
  Function.update (fun _ => none) (sampleClient.sessionKey "s1") (some (.text "\x7b\"a\": 0, \"b\": 0\x7d"))

theorem counters_values {text : String} {v : Json} (h : counters.loads text = .value v) :
    v = .obj [("a", .int 0), ("b", .int 0)] ∨ v = .obj [("a", .int 1), ("b", .int 0)] ∨
      v = .obj [("a", .int 0), ("b", .int 1)] ∨ v = .obj [("a", .int 1), ("b", .int 1)] := by
  dsimp only [counters] at h
  split at h
  · exact .inl (Loaded.value.inj h).symm
  · split at h
    · exact .inr (.inl (Loaded.value.inj h).symm)
    · split at h
      · exact .inr (.inr (.inl (Loaded.value.inj h).symm))
      · split at h
        · exact .inr (.inr (.inr (Loaded.value.inj h).symm))
        · cases h

theorem counters_lawful {fields : Fields Unit} {text : String} {json : List (String × Json)}
    (hread : readSession counters text = some fields)
    (hjson : jsonOfFields (serializeSessionData counters (Dict.setEntries "a" (.int 1) fields)) = some json) :
    Lawful counters (.obj json) := by
  have hvalues : json = [("a", .int 1), ("b", .int 0)] ∨ json = [("a", .int 1), ("b", .int 1)] := by
    rw [readSession] at hread
    cases hloads : counters.loads text with
    | value v =>
      rw [hloads] at hread
      obtain rfl | rfl | rfl | rfl := counters_values hloads
      all_goals
        rw [← Option.some.inj hread] at hjson
        rw [← Option.some.inj hjson]
      · exact .inl rfl
      · exact .inl rfl
      · exact .inr rfl
      · exact .inr rfl
    | decodeError =>
      rw [hloads] at hread
      cases hread
    | raised =>
      rw [hloads] at hread
      cases hread
  refine ⟨fun written h => ?_, fun s h => ?_, rfl⟩
  · obtain rfl | rfl := hvalues
    all_goals
      rw [← Option.some.inj h]
      rfl
  · obtain h | h | h | h := counters_values h <;> cases h

/-- One update alone. -/
theorem sessions_kept_alone :
    Shows counters sampleClient "s1" "a" (.int 1)
      (play serve noEvent (start counters sampleClient "s1" once bothZero)
        [.issue (), .issue (), .issue ()]).shared := by
  have hlegal : Legal serve noEvent (Undisturbed sampleClient "s1" once)
      (start counters sampleClient "s1" once bothZero) [.issue (), .issue (), .issue ()] :=
    ⟨fun _ hne => absurd rfl hne, fun _ hne => absurd rfl hne, fun _ hne => absurd rfl hne, trivial⟩
  have hlawful : ∀ (i : Unit) field value text fields json, once i = .update field value →
      readSession counters text = some fields →
      jsonOfFields (serializeSessionData counters (Dict.setEntries field value fields)) = some json → Lawful counters (.obj json) := by
    intro i field value text fields json hcall hread hjson
    obtain ⟨rfl, rfl⟩ := SessionCall.update.inj hcall
    exact counters_lawful hread hjson
  exact (sessions_kept once bothZero _ (fun _ => rfl) hlawful hlegal).1 (fun _ => ⟨"a", .int 1, rfl, trivial⟩)
    (fun _ _ _ _ _ _ _ => rfl) (fun _ => rfl) () "a" (.int 1) rfl

/-- Two updates that read before either has written, and an update that writes after the session was deleted. -/
theorem sessions_lost :
    let updates : Bool → SessionCall Unit := fun i => if i then .update "b" (.int 1) else .update "a" (.int 1)
    let both := play serve noEvent (start counters sampleClient "s1" updates bothZero)
      [.issue false, .issue true, .issue false, .issue false, .issue true, .issue true]
    let deleting : Bool → SessionCall Unit := fun i => if i then .delete else .update "a" (.int 1)
    let back := play serve noEvent (start counters sampleClient "s1" deleting bothZero)
      [.issue false, .issue true, .issue true, .issue false, .issue false]
    ((∀ i, (both.threads i).rest = .done true) ∧
        (run reachable (getSession counters sampleClient "s1") both.shared).1 = some (some [("a", .int 0), ("b", .int 1)])) ∧
      (∀ i, (back.threads i).rest = .done true) ∧
        (run reachable (getSession counters sampleClient "s1") back.shared).1 = some (some [("a", .int 1), ("b", .int 0)]) := by
  refine ⟨⟨fun i => ?_, rfl⟩, fun i => ?_, rfl⟩
  · cases i <;> rfl
  · cases i <;> rfl

end XgenSdk.RedisClient
