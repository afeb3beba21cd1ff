import XgenSdk.Py.Json
import XgenSdk.Lib.Dict
import XgenSdk.Lib.Substitution

/-! The texts of the notifications, and the placeholders that are filled in them. -/
namespace XgenSdk.Notifier
open XgenSdk.Py
open XgenSdk.Runs (after Along)
open XgenSdk.Substitution

inductive TemplateId where
  | turn | approved | rejected | applyFail | canceled
  deriving DecidableEq, Repr

def TemplateId.code : TemplateId → String
  | .turn => "APV-TURN"
  | .approved => "APV-OK"
  | .rejected => "APV-NO"
  | .applyFail => "APV-ERR"
  | .canceled => "APV-CXL"

structure Template where
  title : String
  content : String
  linkUrl : Option String := none
  deriving DecidableEq, Repr

/-- `DEFAULTS`; a placeholder stands between two braces on each side. -/
def defaults : TemplateId → Template
  | .turn => { title := "결재 요청: \x7b\x7btitle\x7d\x7d"
               content := "\x7b\x7brequester\x7d\x7d 님이 올린 '\x7b\x7btitle\x7d\x7d' 결재를 처리할 차례입니다." }
  | .approved => { title := "결재 승인 완료: \x7b\x7btitle\x7d\x7d"
                   content := "'\x7b\x7btitle\x7d\x7d' 결재가 최종 승인되었습니다." }
  | .rejected => { title := "결재 반려: \x7b\x7btitle\x7d\x7d"
                   content := "'\x7b\x7btitle\x7d\x7d' 결재를 \x7b\x7bactor\x7d\x7d 님이 반려했습니다. 사유: \x7b\x7bnote\x7d\x7d" }
  | .applyFail => { title := "결재 적용 실패: \x7b\x7btitle\x7d\x7d"
                    content := "'\x7b\x7btitle\x7d\x7d' 결재는 승인되었지만 적용하지 못했습니다. 사유: \x7b\x7berror\x7d\x7d" }
  | .canceled => { title := "결재 회수: \x7b\x7btitle\x7d\x7d"
                   content := "'\x7b\x7btitle\x7d\x7d' 결재가 회수되었습니다. 사유: \x7b\x7bnote\x7d\x7d" }

/-! Filling a text. -/

/-- `"{{%s}}" % key`. -/
def placeholder (key : String) : List Char := '\x7b' :: '\x7b' :: (key.toList ++ ['\x7d', '\x7d'])

/-- `base`: the date, and what a caller gives. -/
def base (today : String) (replacements : List (String × Option String)) : Dict String String :=
  (replacements.filterMap fun e => e.2.map fun v => (e.1, v)).foldl (fun d e => d.set e.1 e.2) (Dict.empty.set "date" today)

/-- `out.replace("{{%s}}" % key, value)`. -/
def replaceText (out : String) (e : String × String) : String := String.ofList (replace out.toList (placeholder e.1, e.2.toList))

/-- `_fill`. -/
def fillText (today text : String) (replacements : List (String × Option String)) : String :=
  after replaceText (base today replacements).entries text

/-! Notices. -/

/-- What a notice says besides the request. -/
inductive Notice where
  | turn
  | settled (actorName note : String)
  | applyFailed (error : String)
  | systemCanceled (note : String)
  deriving DecidableEq, Repr

/-- `_requester_name`. -/
def requesterName (req : Json) : String :=
  if (req.get "requester_name").truthy then (req.get "requester_name").toStr
  else if (req.get "requester_username").truthy then (req.get "requester_username").toStr
  else "미상"

/-- `_common`; `knownActions` is the table of the registry. -/
def common (knownActions : String → Option String) (req : Json) : List (String × Option String) :=
  let actionType := (req.get "action_type").textOr
  [("title", some (req.get "title").textOr),
    ("requester", some (requesterName req)),
    ("action", some ((knownActions actionType).getD actionType)),
    ("target", some (req.get "target_ref").textOr)]

/-- `text or fallback`. -/
def orElse (text fallback : String) : String := if text = "" then fallback else text

def Notice.own : Notice → List (String × Option String)
  | .turn => []
  | .settled actorName note => [("actor", some (orElse actorName "결재자")), ("note", some (orElse note "(사유 없음)"))]
  | .applyFailed error => [("error", some (String.ofList (error.toList.take 300)))]
  | .systemCanceled note => [("note", some (orElse note "(사유 없음)"))]

def Notice.templateId (req : Json) : Notice → TemplateId
  | .turn => .turn
  | .settled .. => if (req.get "status").textOr = "approved" then .approved else .rejected
  | .applyFailed _ => .applyFail
  | .systemCanceled _ => .canceled

def replacements (knownActions : String → Option String) (req : Json) (notice : Notice) : List (String × Option String) :=
  common knownActions req ++ notice.own

/-- `_fetch_template`, from the rows of its two queries. -/
def fetchTemplate (tpl trans : List Json) : Option Template :=
  tpl.head?.bind fun row => trans.head?.map fun texts =>
    { title := (texts.get "title").textOr
      content := (texts.get "content").textOr
      linkUrl := some (row.get "link_url").textOr }

/-- The template that `_render` fills; the queries are `none` where they raise. -/
def templateOf (queries : TemplateId → Option (List Json × List Json)) (templateId : TemplateId) : Template :=
  ((queries templateId).bind fun rows => fetchTemplate rows.1 rows.2).getD (defaults templateId)

/-- `_render`. -/
def render (today : String) (queries : TemplateId → Option (List Json × List Json)) (templateId : TemplateId)
    (replacements : List (String × Option String)) : Template :=
  let raw := templateOf queries templateId
  { title := fillText today raw.title replacements
    content := fillText today raw.content replacements
    linkUrl := raw.linkUrl }

/-! What a text is meant to show. -/

/-- The placeholders that have a value, and the values. -/
def values (today : String) (replacements : List (String × Option String)) : List (List Char × List Char) :=
  (base today replacements).entries.map fun e => (placeholder e.1, e.2.toList)

/-- Every placeholder of the text that has a value, at once. -/
def filledAtOnce (today text : String) (replacements : List (String × Option String)) : String :=
  String.ofList (fill (values today replacements) text.toList)

/-- No placeholder is replaced but where the text itself has it. -/
def OnlyOwn (today text : String) (replacements : List (String × Option String)) : Prop :=
  Along replaceOne (fun e letters => Own e.1 letters) (values today replacements) (number 0 text.toList)

/-- With the placeholders before it filled in at once, a placeholder stands only where the text itself has it. -/
def ValuesApart (today text : String) (replacements : List (String × Option String)) : Prop :=
  Apart (values today replacements) (number 0 text.toList)

/-! Placeholders. -/

/-- A key without braces. -/
def Plain (key : String) : Prop := key.toList ≠ [] ∧ '\x7b' ∉ key.toList

instance (key : String) : Decidable (Plain key) := inferInstanceAs (Decidable (_ ∧ _))

theorem placeholder_drop {key : String} (h : Plain key) {k : Nat} (hpos : 0 < k) (hk : k < (placeholder key).length)
    (rest other : List Char) : ¬ '\x7b' :: '\x7b' :: other <+: (placeholder key).drop k ++ rest := by
  obtain ⟨hne, hbrace⟩ := h
  obtain ⟨c, letters, hletters⟩ := List.exists_cons_of_ne_nil hne
  rw [placeholder, hletters] at hk ⊢
  rw [hletters, List.mem_cons, not_or] at hbrace
  rcases k with _ | _ | k
  · exact absurd hpos (lt_irrefl 0)
  · -- The second brace is followed by a letter of the key.
    intro hprefix
    simp only [List.drop_succ_cons, List.drop_zero, List.cons_append, List.cons_prefix_cons, true_and] at hprefix
    exact hbrace.1 hprefix.1
  · -- No brace stands behind the first two, but closing ones.
    intro hprefix
    rw [List.drop_succ_cons, List.drop_succ_cons] at hprefix
    have hshort : k < (c :: letters ++ ['\x7d', '\x7d']).length := by simpa using hk
    rw [List.drop_eq_getElem_cons hshort, List.cons_append, List.cons_prefix_cons] at hprefix
    have hmem := List.getElem_mem hshort
    rw [← hprefix.1] at hmem
    simp only [List.cons_append, List.mem_cons, List.mem_append, List.not_mem_nil, or_false] at hmem
    obtain h | h | h | h := hmem
    · exact hbrace.1 h
    · exact hbrace.2 h
    · exact absurd h (by decide)
    · exact absurd h (by decide)

theorem tight_placeholders {keys : List String} (h : ∀ key ∈ keys, Plain key) : Tight (keys.map placeholder) := by
  refine ⟨fun w hw => ?_, fun w hw v hv k hpos hk rest => ?_⟩
  · obtain ⟨key, -, rfl⟩ := List.mem_map.mp hw
    exact List.cons_ne_nil _ _
  · obtain ⟨key, hkey, rfl⟩ := List.mem_map.mp hw
    obtain ⟨other, -, rfl⟩ := List.mem_map.mp hv
    exact placeholder_drop (h key hkey) hpos hk rest _

/-! The dict of the values. -/

variable {today : String}

theorem mem_update {given : List (String × String)} {d : Dict String String} {e : String × String}
    (h : e ∈ (given.foldl (fun d e => d.set e.1 e.2) d).entries) : e.1 ∈ given.map Prod.fst ∨ e ∈ d.entries := by
  induction given generalizing d with
  | nil => exact .inr h
  | cons first given ih =>
    obtain hlater | hset := ih h
    · exact .inl (List.mem_cons_of_mem _ hlater)
    · obtain hkey | hbefore := Dict.mem_setEntries hset
      · exact .inl (hkey ▸ List.mem_cons_self)
      · exact .inr hbefore

/-- The date and the keys that a caller gives are all the keys. -/
theorem mem_base {replacements : List (String × Option String)} {e : String × String} (h : e ∈ (base today replacements).entries) :
    e.1 ∈ "date" :: replacements.map Prod.fst := by
  obtain hgiven | hdate := mem_update h
  · obtain ⟨e', he', hkey⟩ := List.mem_map.mp hgiven
    obtain ⟨given, hmem, hvalue⟩ := List.mem_filterMap.mp he'
    obtain ⟨v, -, rfl⟩ := Option.map_eq_some_iff.mp hvalue
    exact List.mem_cons_of_mem _ (List.mem_map.mpr ⟨given, hmem, hkey⟩)
  · exact List.mem_cons.mpr (.inl (congrArg Prod.fst (List.mem_singleton.mp hdate)))

theorem toList_fillText (text : String) (replacements : List (String × Option String)) :
    (fillText today text replacements).toList = after replace (values today replacements) text.toList := by
  rw [fillText, values]
  generalize (base today replacements).entries = entries
  induction entries generalizing text with
  | nil => rfl
  | cons e entries ih =>
    have hfirst : (replaceText text e).toList = replace text.toList (placeholder e.1, e.2.toList) := String.toList_ofList
    rw [Runs.after_cons, ih, hfirst]
    rfl

/-- A text shows its values as they are where they stand apart. -/
theorem filled_iff {replacements : List (String × Option String)} (hplain : ∀ e ∈ replacements, Plain e.1) (text : String) :
    (fillText today text replacements = filledAtOnce today text replacements ∧ OnlyOwn today text replacements) ↔
      ValuesApart today text replacements := by
  have hkeys : ∀ key ∈ "date" :: replacements.map Prod.fst, Plain key := by
    intro key hkey
    obtain rfl | hkey := List.mem_cons.mp hkey
    · decide
    · obtain ⟨e, he, rfl⟩ := List.mem_map.mp hkey
      exact hplain e he
  have hwords : ∀ e ∈ values today replacements, e.1 ∈ ("date" :: replacements.map Prod.fst).map placeholder := by
    intro e he
    obtain ⟨e', he', rfl⟩ := List.mem_map.mp he
    exact List.mem_map_of_mem (mem_base he')
  have hsame : fillText today text replacements = filledAtOnce today text replacements ↔
      after replace (values today replacements) text.toList = fill (values today replacements) text.toList := by
    rw [← toList_fillText, ← String.toList_inj, filledAtOnce, String.toList_ofList]
  rw [hsame]
  exact replaced_iff_apart (tight_placeholders hkeys) hwords text.toList

theorem plain_replacements (knownActions : String → Option String) (req : Json) (notice : Notice) :
    ∀ e ∈ replacements knownActions req notice, Plain e.1 := by
  have hcommon : ∀ e ∈ common knownActions req, Plain e.1 := by
    simp only [common, List.forall_mem_cons, List.not_mem_nil, false_implies, implies_true, and_true]
    decide
  have hown : ∀ e ∈ notice.own, Plain e.1 := by
    cases notice <;>
      simp only [Notice.own, List.forall_mem_cons, List.not_mem_nil, false_implies, implies_true, and_true] <;> decide
  intro e he
  obtain he | he := List.mem_append.mp he
  · exact hcommon e he
  · exact hown e he

/-- What a notice shows in its title and in its text, for every template and every request. -/
theorem rendered_iff (queries : TemplateId → Option (List Json × List Json)) (knownActions : String → Option String) (req : Json)
    (notice : Notice) (today : String) :
    let raw := templateOf queries (notice.templateId req)
    let given := replacements knownActions req notice
    let shown := render today queries (notice.templateId req) given
    ((shown.title = filledAtOnce today raw.title given ∧ OnlyOwn today raw.title given) ∧
        (shown.content = filledAtOnce today raw.content given ∧ OnlyOwn today raw.content given)) ↔
      (ValuesApart today raw.title given ∧ ValuesApart today raw.content given) :=
  and_congr (filled_iff (plain_replacements knownActions req notice) _) (filled_iff (plain_replacements knownActions req notice) _)

/-- A title that is a placeholder becomes what the approver wrote. -/
theorem title_expanded :
    let req : Json := .obj [("title", .str "{{note}}"), ("status", .str "rejected")]
    let notice : Notice := .settled "Kim" "no budget"
    let given := replacements (fun _ => none) req notice
    (render "2026-09-11" (fun _ => none) (notice.templateId req) given).title = "결재 반려: no budget" ∧
      filledAtOnce "2026-09-11" (templateOf (fun _ => none) (notice.templateId req)).title given =
        "결재 반려: {{note}}" := by
  decide +kernel

end XgenSdk.Notifier
