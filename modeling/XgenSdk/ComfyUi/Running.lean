import XgenSdk.Lib.Checks
import XgenSdk.Py.Json
import Mathlib.Data.List.TakeWhile

/-! One run of a workflow, from its submission to the history entry that ends it: the requests that
are sent, for every sequence of answers, failures and cancellations. -/
namespace XgenSdk.ComfyUi.Running
open XgenSdk.Py

/-! Answers and errors. -/

/-- What `response.json()` gives: a value, `ValueError` or another exception. -/
inductive Body where
  | json (v : Json)
  | notJson
  | tooDeep

structure Response where
  statusCode : Nat
  body : Body

/-- What awaiting a request gives: a response, `httpx.TimeoutException`, or `httpx.HTTPError` and `httpx.InvalidURL`. -/
inductive Reply where
  | response (r : Response)
  | timedOut
  | failed

/-- The class of an exception; `slow` is `asyncio.TimeoutError`, `cancelled` is `asyncio.CancelledError`, and `other` is none of those
that the module names. -/
inductive Kind where
  | connection | auth | timeout | prompt | execution | slow | cancelled | other
  deriving DecidableEq, Repr

structure Error where
  kind : Kind
  message : String
  deriving DecidableEq, Repr

def cancelledError : Error := ⟨.cancelled, ""⟩

/-- `_raise_for_access`. -/
def raiseForAccess (r : Response) : Except Error Unit :=
  if r.statusCode = 401 ∨ r.statusCode = 403 then .error ⟨.auth, "ComfyUI 서버가 인증을 거부했습니다."⟩
  else if 300 ≤ r.statusCode ∧ r.statusCode < 400 then
    .error ⟨.connection, "ComfyUI 서버가 다른 주소로 넘기려 해서 주소를 확인해야 합니다."⟩
  else .ok ()

/-- `_request`. -/
def request : Reply → Except Error Response
  | .timedOut => .error ⟨.timeout, "ComfyUI 서버가 제한 시간 안에 응답하지 않았습니다."⟩
  | .failed => .error ⟨.connection, "ComfyUI 서버에 연결할 수 없습니다."⟩
  | .response r => (raiseForAccess r).map fun _ => r

/-- `_json`. -/
def jsonOf (r : Response) : Except Error Json :=
  if 400 ≤ r.statusCode then .error ⟨.connection, "ComfyUI 서버가 요청을 처리하지 못했습니다."⟩
  else match r.body with
    | .json v => .ok v
    | .notJson => .error ⟨.connection, "ComfyUI 서버의 응답을 읽을 수 없어 주소가 ComfyUI인지 확인해야 합니다."⟩
    | .tooDeep => .error ⟨.other, ""⟩

/-- `_get_json`. -/
def getJson (reply : Reply) : Except Error Json := (request reply).bind jsonOf

/-! Submission. -/

/-- The message of `_prompt_error_from_body`. -/
def promptMessage (body : Json) : String :=
  let error := body.get "error"
  let errorType := if error.isObj then error.get "type" else error
  match errorType with
  | .str "missing_node_type" =>
    match (error.get "extra_info").get "class_type" with
    | .str classType =>
      if classType = "" then "ComfyUI 서버에 워크플로우가 쓰는 노드가 설치되어 있지 않습니다."
      else "ComfyUI 서버에 " ++ classType ++ " 노드가 설치되어 있지 않습니다."
    | _ => "ComfyUI 서버에 워크플로우가 쓰는 노드가 설치되어 있지 않습니다."
  | .str "prompt_no_outputs" => "워크플로우에 결과를 저장하는 노드가 없습니다."
  | _ => "ComfyUI가 워크플로우 입력값을 받아들이지 않았습니다."

/-- `submit`, from the answer to `POST /prompt`. -/
def submit (reply : Reply) : Except Error String := do
  let response ← request reply
  if response.statusCode = 400 then
    match response.body with
    | .json v => .error ⟨.prompt, promptMessage v⟩
    | .notJson => .error ⟨.prompt, "ComfyUI가 워크플로우 입력값을 받아들이지 않았습니다."⟩
    | .tooDeep => .error ⟨.other, ""⟩
  else
    let data ← jsonOf response
    match data.get "prompt_id" with
    | .str newId =>
      if newId = "" then .error ⟨.connection, "ComfyUI 서버의 응답을 읽을 수 없어 주소가 ComfyUI인지 확인해야 합니다."⟩ else .ok newId
    | _ => .error ⟨.connection, "ComfyUI 서버의 응답을 읽을 수 없어 주소가 ComfyUI인지 확인해야 합니다."⟩

/-! Waiting. -/

/-- `_history_entry`. -/
def historyEntry (promptId : String) (reply : Reply) : Except Error (Option Json) :=
  (getJson reply).map fun data => if (data.get promptId).isObj then some (data.get promptId) else none

/-- What the messages of a failed run tell: the type of its node, whether there is an exception, and whether it was interrupted. -/
structure Failure where
  nodeType : Json := .null
  hasException : Bool := false
  interrupted : Bool := false

def readMessage (f : Failure) : Json → Failure
  | .arr [.str event, .obj payload] =>
    if event = "execution_error" then
      { f with
        nodeType := Json.get "node_type" (.obj payload)
        hasException := match Json.get "exception_type" (.obj payload), Json.get "exception_message" (.obj payload) with
          | .null, .null => false
          | _, _ => true }
    else if event = "execution_interrupted" then { f with nodeType := Json.get "node_type" (.obj payload), interrupted := true }
    else f
  | _ => f

/-- `_execution_error_from_status`; messages that are no collection raise. -/
def executionErrorFromStatus (status : Json) : Error :=
  let messages := status.get "messages"
  let items : Option (List Json) :=
    if messages.truthy then
      match messages with
      | .arr xs => some xs
      | .str _ => some []
      | .obj _ => some []
      | _ => none
    else some []
  match items with
  | none => ⟨.other, ""⟩
  | some items =>
    let f := items.foldl readMessage {}
    if f.interrupted then ⟨.execution, "ComfyUI에서 작업이 중단되었습니다."⟩
    else if f.hasException then
      let nodeType := match f.nodeType with
        | .null => "어느"
        | v => if v.toStr = "" then "어느" else v.toStr
      ⟨.execution, "ComfyUI 실행 중 " ++ nodeType ++ " 노드에서 오류가 났습니다."⟩
    else ⟨.execution, "ComfyUI 실행이 오류로 끝났습니다."⟩

def pollFailureLimit : Nat := 3

/-- What awaiting a poll gives: an answer, that it took too long, or a cancellation. -/
inductive Poll where
  | answer (reply : Reply)
  | slow
  | cancelled

/-- One round of the loop, as the surroundings decide it: the poll, the clock after it, and whether the sleep is cancelled. -/
structure Round where
  poll : Poll
  now : Int
  sleepCancelled : Bool

/-- How `wait` ends. -/
inductive Ending where
  | raised (e : Error)
  | finished (entry : Json)

def statusOf (entry : Json) : Json := if (entry.get "status").isObj then entry.get "status" else .obj []

def isTrue : Json → Bool
  | .bool b => b
  | _ => false

def isText (text : String) : Json → Bool
  | .str s => s == text
  | _ => false

/-- How an entry ends the wait, if it does. -/
def endingOf (entry : Json) : Option Ending :=
  let status := statusOf entry
  if isText "error" (status.get "status_str") then some (.raised (executionErrorFromStatus status))
  else if isTrue (status.get "completed") || isText "success" (status.get "status_str") || (!status.truthy && entry.has "outputs") then
    some (.finished entry)
  else none

/-- What a poll gives inside the `try`. -/
def polled (promptId : String) : Poll → Except Error (Option Json)
  | .answer reply => historyEntry promptId reply
  | .slow => .error ⟨.slow, ""⟩
  | .cancelled => .error cancelledError

/-- `except (ComfyUIConnectionError, ComfyUITimeout, asyncio.TimeoutError)`. -/
def Error.isPollFailure (e : Error) : Bool := e.kind = .connection || e.kind = .timeout || e.kind = .slow

/-- After a poll: the clock and the sleep. -/
def rest (deadline : Int) (failures : Nat) (round : Round) : Nat ⊕ Ending :=
  if deadline - round.now ≤ 0 then .inr (.raised ⟨.timeout, "정해진 시간 안에 ComfyUI 작업이 끝나지 않았습니다."⟩)
  else if round.sleepCancelled then .inr (.raised cancelledError)
  else .inl failures

/-- The body of the loop of `wait`: so many failures in a row, or how it ends. -/
def pollOnce (promptId : String) (deadline : Int) (failures : Nat) (round : Round) : Nat ⊕ Ending :=
  match polled promptId round.poll with
  | .error e =>
    if e.isPollFailure then
      if pollFailureLimit ≤ failures + 1 ∧ e.kind ≠ .slow then .inr (.raised e) else rest deadline (failures + 1) round
    else .inr (.raised e)
  | .ok none => rest deadline 0 round
  | .ok (some entry) => (endingOf entry).elim (rest deadline 0 round) .inr

/-- `wait`, where these are all its rounds. -/
def wait (promptId : String) (deadline : Int) : Nat → List Round → Option Ending
  | _, [] => none
  | failures, round :: rounds =>
    match pollOnce promptId deadline failures round with
    | .inl failures' => wait promptId deadline failures' rounds
    | .inr ending => if rounds.isEmpty then some ending else none

/-! One run. -/

/-- What is sent, and that a task for the abandonment is started. -/
inductive Event where
  | prompt (promptId : String)
  | history (promptId : String)
  | abandon (promptId : String)
  | deleteQueued (promptIds : List String)
  | interrupt (promptId : Option String)
  deriving DecidableEq, Repr

/-- `delete_queued`. -/
def deleteQueued (promptIds : List String) : List Event :=
  let ids := promptIds.filter (· ≠ "")
  if ids.isEmpty then [] else [.deleteQueued ids]

/-- `interrupt`. -/
def interrupt (promptId : String) : List Event := [.interrupt (orNone promptId)]

/-- `abandon_prompt`: the task, and what it sends; its time may run out before the second request. -/
def abandonPrompt (outOfTime : Bool) (promptId : String) : List Event :=
  .abandon promptId :: deleteQueued [promptId] ++ if outOfTime then [] else interrupt promptId

/-- What the surroundings decide in a run: the id that `uuid4` gives, the answer to the submission (`none` where it is cancelled), the
clock, the rounds of the wait, and whether the time of an abandonment runs out early. -/
structure Run where
  uuid : String
  submission : Option Reply
  timeout : Int
  started : Int
  submitted : Int
  waiting : Int
  rounds : List Round
  outOfTime : Bool

inductive Outcome where
  | raised (e : Error)
  /-- The results of this entry are collected. -/
  | collects (promptId : String) (entry : Json)

/-- `submit` with its cancellation. -/
def Run.submit (run : Run) : Except Error String := run.submission.elim (.error cancelledError) Running.submit

def Run.deadline (run : Run) : Int := run.waiting + max 0 (max 0 (run.timeout - (run.submitted - run.started)))

/-- The handlers of `run_workflow`: what is sent before the exception is raised again. -/
def cleanUp (outOfTime : Bool) (promptId : String) (waits : Bool) (e : Error) : List Event :=
  match e.kind with
  | .cancelled => abandonPrompt outOfTime promptId
  | .timeout => abandonPrompt outOfTime promptId
  | .connection => if waits then abandonPrompt outOfTime promptId else []
  | _ => []

/-- `run_workflow` until the results are collected, where these are all rounds of its wait. -/
def runWorkflow (run : Run) : Option (Outcome × List Event) :=
  match run.submit with
  | .error e => if run.rounds.isEmpty then some (.raised e, .prompt run.uuid :: cleanUp run.outOfTime run.uuid false e) else none
  | .ok promptId =>
    (wait promptId run.deadline 0 run.rounds).map fun ending =>
      match ending with
      | .raised e =>
        (.raised e, .prompt run.uuid :: run.rounds.map (fun _ => .history promptId) ++ cleanUp run.outOfTime promptId true e)
      | .finished entry => (.collects promptId entry, .prompt run.uuid :: run.rounds.map fun _ => .history promptId)

/-! What a run owes to its prompt. -/

/-- The poll shows that the prompt has finished. -/
def Shows (promptId : String) (round : Round) : Prop :=
  ∃ entry ending, polled promptId round.poll = .ok (some entry) ∧ endingOf entry = some ending

/-- The poll has failed. -/
def failed (promptId : String) (round : Round) : Bool :=
  match polled promptId round.poll with
  | .error e => e.kind ≠ .cancelled
  | .ok _ => false

/-- How many polls have failed in a row at the end. -/
def failedLast (promptId : String) (rounds : List Round) : Nat := (rounds.reverse.takeWhile (failed promptId)).length

/-- No prompt is left running unattended, and no failed polls are too few to give up. -/
structure Attended (run : Run) (outcome : Outcome) (events : List Event) : Prop where
  abandoned : ∀ promptId e, run.submit = .ok promptId → outcome = .raised e → (∀ round ∈ run.rounds, ¬ Shows promptId round) →
    events = .prompt run.uuid :: run.rounds.map (fun _ => .history promptId) ++
      (.abandon promptId :: .deleteQueued [promptId] :: if run.outOfTime then [] else [.interrupt (some promptId)])
  named : Event.interrupt none ∉ events
  patient : ∀ promptId e front round, run.submit = .ok promptId → outcome = .raised e → run.rounds = front ++ [round] →
    failed promptId round = true → 0 < run.deadline - round.now → round.sleepCancelled = false →
    pollFailureLimit ≤ failedLast promptId run.rounds

/-- The server refuses the poll with 401 or 403, or what it sends makes the JSON library raise something else than `ValueError`. -/
def Escapes (round : Round) : Prop :=
  ∃ r, round.poll = .answer (.response r) ∧ (r.statusCode = 401 ∨ r.statusCode = 403 ∨ r.statusCode < 300 ∧ r.body = .tooDeep)

section Runs
variable {promptId : String} {deadline : Int} {failures : Nat} {round : Round} {rounds before : List Round} {ending : Ending} {e : Error}
  {poll : Poll} {r : Response} {run : Run} {outcome : Outcome} {events : List Event}

/-! One poll. -/

theorem getJson_response (r : Response) : getJson (.response r) = (raiseForAccess r).bind fun _ => jsonOf r := by
  rw [getJson, request]
  cases raiseForAccess r <;> rfl

theorem raiseForAccess_refused (h : r.statusCode = 401 ∨ r.statusCode = 403) : ∃ message, raiseForAccess r = .error ⟨.auth, message⟩ :=
  ⟨_, if_pos h⟩

theorem raiseForAccess_redirect (h : 300 ≤ r.statusCode ∧ r.statusCode < 400) : ∃ message, raiseForAccess r = .error ⟨.connection, message⟩ :=
  ⟨_, by rw [raiseForAccess, if_neg (by omega), if_pos h]⟩

theorem raiseForAccess_ok (h : ¬ (r.statusCode = 401 ∨ r.statusCode = 403)) (hredirect : ¬ (300 ≤ r.statusCode ∧ r.statusCode < 400)) :
    raiseForAccess r = .ok () := by
  rw [raiseForAccess, if_neg h, if_neg hredirect]

/-- A poll that escapes raises what the loop does not take for a failure. -/
theorem polled_escapes (h : Escapes round) :
    ∃ e, polled promptId round.poll = .error e ∧ (e.kind = .auth ∨ e.kind = .other) := by
  obtain ⟨r, hpoll, hcase⟩ := h
  rw [hpoll, polled, historyEntry, getJson_response]
  by_cases hrefused : r.statusCode = 401 ∨ r.statusCode = 403
  · obtain ⟨message, haccess⟩ := raiseForAccess_refused hrefused
    rw [haccess]
    exact ⟨_, rfl, .inl rfl⟩
  · have hdeep : r.statusCode < 300 ∧ r.body = .tooDeep := by
      obtain h | h | h := hcase
      · exact absurd (.inl h) hrefused
      · exact absurd (.inr h) hrefused
      · exact h
    rw [raiseForAccess_ok hrefused (by omega), Except.bind, jsonOf, if_neg (by omega), hdeep.2]
    exact ⟨_, rfl, .inr rfl⟩

/-- What any other poll raises is a failure for the loop, or a cancellation. -/
theorem polled_error (h : ¬ Escapes round) (he : polled promptId round.poll = .error e) :
    e.isPollFailure = true ∨ e.kind = .cancelled := by
  cases hpoll : round.poll with
  | slow =>
    rw [hpoll, polled] at he
    rw [← Except.error.inj he]
    exact .inl rfl
  | cancelled =>
    rw [hpoll, polled] at he
    rw [← Except.error.inj he]
    exact .inr rfl
  | answer reply =>
    rw [hpoll, polled, historyEntry] at he
    cases reply with
    | timedOut =>
      rw [← Except.error.inj he]
      exact .inl rfl
    | failed =>
      rw [← Except.error.inj he]
      exact .inl rfl
    | response r =>
      rw [getJson_response] at he
      by_cases hrefused : r.statusCode = 401 ∨ r.statusCode = 403
      · exact absurd ⟨r, hpoll, hrefused.imp_right .inl⟩ h
      · by_cases hredirect : 300 ≤ r.statusCode ∧ r.statusCode < 400
        · obtain ⟨message, haccess⟩ := raiseForAccess_redirect hredirect
          rw [haccess] at he
          rw [← Except.error.inj he]
          exact .inl rfl
        · rw [raiseForAccess_ok hrefused hredirect, Except.bind, jsonOf] at he
          by_cases hbad : 400 ≤ r.statusCode
          · rw [if_pos hbad] at he
            rw [← Except.error.inj he]
            exact .inl rfl
          · rw [if_neg hbad] at he
            cases hbody : r.body with
            | json v =>
              rw [hbody] at he
              cases he
            | notJson =>
              rw [hbody] at he
              rw [← Except.error.inj he]
              exact .inl rfl
            | tooDeep => exact absurd ⟨r, hpoll, .inr (.inr ⟨by omega, hbody⟩)⟩ h

/-! The wait. -/

/-- What can come after a poll that does not end the wait by itself. -/
theorem rest_raised (h : rest deadline failures round = .inr (.raised e)) :
    (deadline - round.now ≤ 0 ∨ round.sleepCancelled = true) ∧ (e.kind = .timeout ∨ e.kind = .cancelled) := by
  rw [rest] at h
  split_ifs at h with hover hcancelled
  · rw [← Ending.raised.inj (Sum.inr.inj h)]
    exact ⟨.inl hover, .inl rfl⟩
  · rw [← Ending.raised.inj (Sum.inr.inj h)]
    exact ⟨.inr hcancelled, .inr rfl⟩

theorem rest_continues {failures' : Nat} (h : rest deadline failures round = .inl failures') : failures' = failures := by
  rw [rest] at h
  split_ifs at h
  exact (Sum.inl.inj h).symm

/-- A poll after which the loop goes on: it has shown no end, and counts as a failure or sets the count back. -/
theorem pollOnce_continues {failures' : Nat} (h : pollOnce promptId deadline failures round = .inl failures') :
    ¬ Shows promptId round ∧ failures' = if failed promptId round then failures + 1 else 0 := by
  rw [pollOnce] at h
  cases hpolled : polled promptId round.poll with
  | error e =>
    rw [hpolled] at h
    dsimp only at h
    refine ⟨fun ⟨entry, ending, hentry, _⟩ => by simp [hpolled] at hentry, ?_⟩
    split_ifs at h with hfailure hlimit
    have hfailed : failed promptId round = true := by
      have hne : e.kind ≠ .cancelled := by
        intro hkind
        simp [Error.isPollFailure, hkind] at hfailure
      simp [failed, hpolled, hne]
    rw [if_pos hfailed]
    exact rest_continues h
  | ok found =>
    rw [hpolled] at h
    have hfailed : failed promptId round = false := by simp [failed, hpolled]
    rw [hfailed, if_neg Bool.false_ne_true]
    cases found with
    | none => exact ⟨fun ⟨entry, ending, hentry, _⟩ => by simp [hpolled] at hentry, rest_continues h⟩
    | some entry =>
      dsimp only at h
      cases hending : endingOf entry with
      | none =>
        rw [hending, Option.elim_none] at h
        refine ⟨fun ⟨entry', ending, hentry, hshown⟩ => ?_, rest_continues h⟩
        obtain rfl : entry = entry' := by simpa [hpolled] using hentry
        rw [hending] at hshown
        cases hshown
      | some ending =>
        rw [hending, Option.elim_some] at h
        cases h

/-- A wait that ends has gone on after all its rounds but the last. -/
theorem wait_cons (h : wait promptId deadline failures (round :: rounds) = some ending) :
    (rounds = [] ∧ pollOnce promptId deadline failures round = .inr ending) ∨
      ∃ failures', pollOnce promptId deadline failures round = .inl failures' ∧ wait promptId deadline failures' rounds = some ending := by
  rw [wait] at h
  cases hpoll : pollOnce promptId deadline failures round with
  | inl failures' =>
    rw [hpoll] at h
    exact .inr ⟨failures', rfl, h⟩
  | inr last =>
    rw [hpoll] at h
    dsimp only at h
    split_ifs at h with hempty
    rw [← Option.some.inj h]
    exact .inl ⟨List.isEmpty_iff.mp hempty, rfl⟩

/-- A poll that escapes ends the wait with what no handler takes. -/
theorem wait_escapes (h : wait promptId deadline failures rounds = some ending) (hround : round ∈ rounds) (hescapes : Escapes round) :
    (∃ e, ending = .raised e ∧ (e.kind = .auth ∨ e.kind = .other)) ∧ ∀ other ∈ rounds, ¬ Shows promptId other := by
  induction rounds generalizing failures with
  | nil => cases hround
  | cons first rounds ih =>
    obtain ⟨rfl, hlast⟩ | ⟨failures', hgoes, hrest⟩ := wait_cons h
    · obtain rfl := List.mem_singleton.mp hround
      obtain ⟨e, he, hkind⟩ := @polled_escapes promptId _ hescapes
      have hraised : pollOnce promptId deadline failures round = .inr (.raised e) := by
        have hfailure : ¬ e.isPollFailure = true := by
          obtain hkind | hkind := hkind <;> simp [Error.isPollFailure, hkind]
        rw [pollOnce, he]
        dsimp only
        rw [if_neg hfailure]
      rw [hraised] at hlast
      refine ⟨⟨e, (Sum.inr.inj hlast).symm, hkind⟩, fun other hother => ?_⟩
      obtain rfl := List.mem_singleton.mp hother
      rintro ⟨entry, -, hentry, -⟩
      rw [he] at hentry
      cases hentry
    · obtain ⟨hshows, -⟩ := pollOnce_continues hgoes
      have hround' : round ∈ rounds := by
        obtain rfl | hround := List.mem_cons.mp hround
        · -- The loop does not go on after a poll that escapes.
          obtain ⟨e, he, hkind⟩ := @polled_escapes promptId _ hescapes
          have hfailure : ¬ e.isPollFailure = true := by
            obtain hkind | hkind := hkind <;> simp [Error.isPollFailure, hkind]
          rw [pollOnce, he] at hgoes
          dsimp only at hgoes
          rw [if_neg hfailure] at hgoes
          cases hgoes
        · exact hround
      obtain ⟨hending, hnone⟩ := ih hrest hround'
      exact ⟨hending, List.forall_mem_cons.mpr ⟨hshows, hnone⟩⟩

/-- Without such polls a wait raises what the handlers take, unless a history entry has shown the end. -/
theorem wait_raised (h : wait promptId deadline failures rounds = some (.raised e)) (hquiet : ∀ round ∈ rounds, ¬ Escapes round)
    (hshows : ∀ round ∈ rounds, ¬ Shows promptId round) : e.kind = .connection ∨ e.kind = .timeout ∨ e.kind = .cancelled := by
  induction rounds generalizing failures with
  | nil => cases h
  | cons round rounds ih =>
    obtain ⟨rfl, hlast⟩ | ⟨failures', -, hrest⟩ := wait_cons h
    · rw [pollOnce] at hlast
      cases hpolled : polled promptId round.poll with
      | error e' =>
        rw [hpolled] at hlast
        dsimp only at hlast
        split_ifs at hlast with hfailure hlimit
        · obtain rfl := Ending.raised.inj (Sum.inr.inj hlast)
          simp only [Error.isPollFailure, Bool.or_eq_true, decide_eq_true_eq] at hfailure
          obtain (hkind | hkind) | hkind := hfailure
          · exact .inl hkind
          · exact .inr (.inl hkind)
          · exact absurd hkind hlimit.2
        · exact .inr (rest_raised hlast).2
        · obtain rfl := Ending.raised.inj (Sum.inr.inj hlast)
          obtain htaken | hkind := polled_error (hquiet round List.mem_cons_self) hpolled
          · exact absurd htaken hfailure
          · exact .inr (.inr hkind)
      | ok found =>
        rw [hpolled] at hlast
        cases found with
        | none => exact .inr (rest_raised hlast).2
        | some entry =>
          dsimp only at hlast
          cases hending : endingOf entry with
          | none =>
            rw [hending, Option.elim_none] at hlast
            exact .inr (rest_raised hlast).2
          | some ending => exact absurd ⟨entry, ending, hpolled, hending⟩ (hshows round List.mem_cons_self)
    · exact ih hrest (fun other hother => hquiet other (List.mem_cons_of_mem _ hother))
        fun other hother => hshows other (List.mem_cons_of_mem _ hother)

theorem failedLast_concat (promptId : String) (before : List Round) (round : Round) :
    failedLast promptId (before ++ [round]) = if failed promptId round then failedLast promptId before + 1 else 0 := by
  rw [failedLast, List.reverse_append, List.reverse_singleton, List.singleton_append, List.takeWhile_cons]
  split <;> rfl

/-- A wait that gives up on a failed poll has seen enough of them in a row. -/
theorem wait_patient (h : wait promptId deadline failures rounds = some (.raised e)) (hquiet : ∀ round ∈ rounds, ¬ Escapes round)
    (hbefore : failures ≤ failedLast promptId before) {front : List Round} (hrounds : rounds = front ++ [round])
    (hfailed : failed promptId round = true) (htime : 0 < deadline - round.now) (hsleep : round.sleepCancelled = false) :
    pollFailureLimit ≤ failedLast promptId (before ++ rounds) := by
  induction rounds generalizing failures before front with
  | nil => cases h
  | cons first rounds ih =>
    obtain ⟨rfl, hlast⟩ | ⟨failures', hgoes, hrest⟩ := wait_cons h
    · have hfirst : first = round := by
        cases front with
        | nil => exact List.head_eq_of_cons_eq hrounds
        | cons other front => simp at hrounds
      subst hfirst
      have hover : ∀ failures', rest deadline failures' first ≠ .inr (.raised e) := by
        intro failures' hrest
        obtain htime' | hsleep' := (rest_raised hrest).1
        · omega
        · rw [hsleep] at hsleep'
          cases hsleep'
      rw [failedLast_concat, if_pos hfailed]
      rw [pollOnce] at hlast
      cases hpolled : polled promptId first.poll with
      | error e' =>
        rw [hpolled] at hlast
        dsimp only at hlast
        have htaken : e'.isPollFailure = true := by
          obtain htaken | hkind := polled_error (hquiet first List.mem_cons_self) hpolled
          · exact htaken
          · simp [failed, hpolled, hkind] at hfailed
        rw [if_pos htaken] at hlast
        split_ifs at hlast with hlimit
        · omega
        · exact absurd hlast (hover _)
      | ok found => simp [failed, hpolled] at hfailed
    · obtain ⟨-, hcount⟩ := pollOnce_continues hgoes
      have hrounds' : ∃ front', rounds = front' ++ [round] := by
        cases front with
        | nil =>
          rw [List.nil_append, List.cons.injEq] at hrounds
          rw [hrounds.2] at hrest
          cases hrest
        | cons other front => exact ⟨front, (List.cons.inj hrounds).2⟩
      obtain ⟨front', hfront'⟩ := hrounds'
      have hnext : failures' ≤ failedLast promptId (before ++ [first]) := by
        rw [hcount, failedLast_concat]
        split <;> omega
      have hall := ih hrest (fun other hother => hquiet other (List.mem_cons_of_mem _ hother)) hnext hfront'
      rwa [List.append_assoc, List.singleton_append] at hall

/-! The run. -/

theorem submit_named {reply : Reply} (h : submit reply = .ok promptId) : promptId ≠ "" := by
  rw [submit] at h
  obtain ⟨response, -, h⟩ := Checks.bind_ok h
  split_ifs at h
  · split at h <;> cases h
  · obtain ⟨data, -, h⟩ := Checks.bind_ok h
    split at h
    · split_ifs at h with hempty
      rwa [← Except.ok.inj h]
    · cases h

theorem Run.submit_named (h : run.submit = .ok promptId) : promptId ≠ "" := by
  rw [Run.submit] at h
  cases hreply : run.submission with
  | none =>
    rw [hreply] at h
    cases h
  | some reply =>
    rw [hreply] at h
    exact Running.submit_named h

theorem abandonPrompt_named (outOfTime : Bool) (h : promptId ≠ "") :
    abandonPrompt outOfTime promptId =
      .abandon promptId :: .deleteQueued [promptId] :: if outOfTime then [] else [.interrupt (some promptId)] := by
  simp [abandonPrompt, deleteQueued, interrupt, orNone, h]

/-- A cleaning up names its prompt. -/
theorem cleanUp_named (outOfTime : Bool) (waits : Bool) (e : Error) (h : promptId ≠ "") :
    Event.interrupt none ∉ cleanUp outOfTime promptId waits e := by
  have habandon : Event.interrupt none ∉ abandonPrompt outOfTime promptId := by
    rw [abandonPrompt_named outOfTime h]
    cases outOfTime <;> simp
  rw [cleanUp]
  split
  · exact habandon
  · exact habandon
  · split
    · exact habandon
    · exact List.not_mem_nil
  · exact List.not_mem_nil

/-- The handlers of a wait take these exceptions. -/
theorem cleanUp_taken (outOfTime : Bool) (promptId : String) (h : e.kind = .connection ∨ e.kind = .timeout ∨ e.kind = .cancelled) :
    cleanUp outOfTime promptId true e = abandonPrompt outOfTime promptId := by
  obtain h | h | h := h <;> simp [cleanUp, h]

theorem cleanUp_missed (outOfTime : Bool) (promptId : String) (h : e.kind = .auth ∨ e.kind = .other) :
    cleanUp outOfTime promptId true e = [] := by
  obtain h | h := h <;> simp [cleanUp, h]

/-- A run that has submitted its prompt is its wait. -/
theorem runWorkflow_submitted (h : runWorkflow run = some (outcome, events)) (hsubmit : run.submit = .ok promptId) :
    (∃ e, wait promptId run.deadline 0 run.rounds = some (.raised e) ∧ outcome = .raised e ∧
        events = .prompt run.uuid :: run.rounds.map (fun _ => .history promptId) ++ cleanUp run.outOfTime promptId true e) ∨
      ∃ entry, wait promptId run.deadline 0 run.rounds = some (.finished entry) ∧ outcome = .collects promptId entry ∧
        events = .prompt run.uuid :: run.rounds.map fun _ => .history promptId := by
  rw [runWorkflow, hsubmit] at h
  obtain ⟨ending, hwait, hending⟩ := Option.map_eq_some_iff.mp h
  cases ending with
  | raised e =>
    rw [Prod.mk.injEq] at hending
    exact .inl ⟨e, hwait, hending.1.symm, hending.2.symm⟩
  | finished entry =>
    rw [Prod.mk.injEq] at hending
    exact .inr ⟨entry, hwait, hending.1.symm, hending.2.symm⟩

/-- A run that has not submitted its prompt has no rounds. -/
theorem runWorkflow_unsubmitted (h : runWorkflow run = some (outcome, events)) (hsubmit : run.submit = .error e) :
    run.rounds = [] ∧ events = .prompt run.uuid :: cleanUp run.outOfTime run.uuid false e := by
  rw [runWorkflow, hsubmit] at h
  dsimp only at h
  split_ifs at h with hempty
  have hevents := congrArg Prod.snd (Option.some.inj h)
  exact ⟨List.isEmpty_iff.mp hempty, hevents.symm⟩

theorem run_named (h : runWorkflow run = some (outcome, events)) (huuid : run.uuid ≠ "") : Event.interrupt none ∉ events := by
  cases hsubmit : run.submit with
  | error e =>
    obtain ⟨-, rfl⟩ := runWorkflow_unsubmitted h hsubmit
    simpa using cleanUp_named run.outOfTime false e huuid
  | ok promptId =>
    have hnamed := Run.submit_named hsubmit
    obtain ⟨e, -, -, rfl⟩ | ⟨entry, -, -, rfl⟩ := runWorkflow_submitted h hsubmit
    · simpa using cleanUp_named run.outOfTime true e hnamed
    · simp

/-- A prompt is left running unattended exactly after a poll that raises what no handler takes. -/
theorem attended_iff (h : runWorkflow run = some (outcome, events)) (huuid : run.uuid ≠ "") :
    Attended run outcome events ↔ ∀ round ∈ run.rounds, ¬ Escapes round := by
  cases hsubmit : run.submit with
  | error e =>
    obtain ⟨hrounds, -⟩ := runWorkflow_unsubmitted h hsubmit
    refine iff_of_true ⟨?_, run_named h huuid, ?_⟩ ?_
    · intro promptId e' hok
      rw [hsubmit] at hok
      cases hok
    · intro promptId e' front round hok
      rw [hsubmit] at hok
      cases hok
    · rw [hrounds]
      exact fun round hround => absurd hround List.not_mem_nil
  | ok promptId =>
    have hnamed := Run.submit_named hsubmit
    constructor
    · intro hattended round hround hescapes
      obtain ⟨e, hwait, houtcome, hevents⟩ | ⟨entry, hwait, -, -⟩ := runWorkflow_submitted h hsubmit
      · obtain ⟨⟨e', he, hkind⟩, hshows⟩ := wait_escapes hwait hround hescapes
        obtain rfl := Ending.raised.inj he
        have habandoned := hattended.abandoned promptId e hsubmit houtcome hshows
        rw [hevents, cleanUp_missed _ _ hkind] at habandoned
        simp at habandoned
      · obtain ⟨⟨e, he, -⟩, -⟩ := wait_escapes hwait hround hescapes
        cases he
    · intro hquiet
      refine ⟨?_, run_named h huuid, ?_⟩
      · intro promptId' e hok houtcome hshows
        obtain rfl := Except.ok.inj (hsubmit.symm.trans hok)
        obtain ⟨e', hwait, houtcome', hevents⟩ | ⟨entry, -, houtcome', -⟩ := runWorkflow_submitted h hsubmit
        · obtain rfl := Outcome.raised.inj (houtcome.symm.trans houtcome')
          rw [hevents, cleanUp_taken _ _ (wait_raised hwait hquiet hshows), abandonPrompt_named _ hnamed]
        · cases houtcome.symm.trans houtcome'
      · intro promptId' e front round hok houtcome hrounds hfailed htime hsleep
        obtain rfl := Except.ok.inj (hsubmit.symm.trans hok)
        obtain ⟨e', hwait, -, -⟩ | ⟨entry, -, houtcome', -⟩ := runWorkflow_submitted h hsubmit
        · exact @wait_patient _ _ _ _ _ [] _ hwait hquiet (Nat.zero_le _) front hrounds hfailed htime hsleep
        · cases houtcome.symm.trans houtcome'

end Runs

/-! Two runs. -/

/-- A run whose prompt is accepted under the name p, and whose polls are answered so. -/
def sampleRun (rounds : List Round) : Run where
  uuid := "u"
  submission := some (.response ⟨200, .json (.obj [("prompt_id", .str "p")])⟩)
  timeout := 60
  started := 0
  submitted := 0
  waiting := 0
  rounds := rounds
  outOfTime := false

/-- A server that wants a password all of a sudden. -/
def refusedRun : Run := sampleRun [⟨.answer (.response ⟨401, .notJson⟩), 1, false⟩]

/-- A server that is not there for three polls in a row. -/
def lostRun : Run := sampleRun [⟨.answer .failed, 1, false⟩, ⟨.answer .timedOut, 2, false⟩, ⟨.answer .failed, 3, false⟩]

def lostError : Error := ⟨.connection, "ComfyUI 서버에 연결할 수 없습니다."⟩

theorem attended_lost :
    Attended lostRun (.raised lostError)
      [.prompt "u", .history "p", .history "p", .history "p", .abandon "p", .deleteQueued ["p"], .interrupt (some "p")] :=
  (attended_iff rfl (by decide)).mpr fun round hround => by
    rintro ⟨r, hpoll, -⟩
    simp [lostRun, sampleRun] at hround
    obtain rfl | rfl | rfl := hround <;> cases hpoll

/-- The prompt is left in the queue of a server that refuses one poll. -/
theorem unattended_refused :
    ∃ outcome events, runWorkflow refusedRun = some (outcome, events) ∧ refusedRun.uuid ≠ "" ∧ ¬ Attended refusedRun outcome events := by
  refine ⟨.raised ⟨.auth, "ComfyUI 서버가 인증을 거부했습니다."⟩, [.prompt "u", .history "p"], rfl, by decide, ?_⟩
  intro hattended
  have hshows : ∀ round ∈ refusedRun.rounds, ¬ Shows "p" round := by
    intro round hround
    simp [refusedRun, sampleRun] at hround
    rintro ⟨entry, ending, hentry, -⟩
    rw [hround] at hentry
    cases hentry
  have habandoned := hattended.abandoned "p" _ rfl rfl hshows
  cases habandoned

end XgenSdk.ComfyUi.Running
