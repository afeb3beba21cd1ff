import XgenSdk.ControlPolicy.HtmlBlocks
import XgenSdk.ControlPolicy.HtmlDocument

/-! When the pieces of a masked document are those of the document, each as it
was written. -/
namespace XgenSdk.HtmlStable
open XgenSdk.Search XgenSdk.Splice XgenSdk.Rules XgenSdk.Html XgenSdk.HtmlScan XgenSdk.HtmlCuts XgenSdk.HtmlTags
open XgenSdk.HtmlBlocks XgenSdk.HtmlDocument

/-! The pieces of a text are determined. -/

theorem opens_unique {s : Text} {opened opened' : List Cut × Text} (h : Opens s opened) (h' : Opens s opened') :
    opened = opened' := by
  cases h with
  | comment ho =>
    cases h' with
    | comment ho' => rw [Option.some.inj (ho.symm.trans ho')]
    | element hno _ _ => cases ho.symm.trans hno
    | tag hno _ _ => cases ho.symm.trans hno
  | @element name tag rest hno hname hto =>
    generalize hs : tag ++ rest = s at hno hname hto h'
    cases h' with
    | comment ho => cases ho.symm.trans hno
    | @element name' tag' rest' hno' hname' hto' =>
      obtain rfl := Option.some.inj (hname.symm.trans hname')
      obtain rfl := hto.unique hto'
      rw [List.append_cancel_right hs]
    | tag _ hnone _ => cases hname.symm.trans hnone
  | @tag tag rest hno hnone hto =>
    generalize hs : tag ++ rest = s at hno hnone hto h'
    cases h' with
    | comment ho => cases ho.symm.trans hno
    | element _ hname _ => cases hname.symm.trans hnone
    | @tag tag' rest' hno' hnone' hto' =>
      obtain rfl := hto.unique hto'
      rw [List.append_cancel_right hs]

theorem cuts_unique {pending s : Text} {cuts cuts' : List Cut} (h : Cuts pending s cuts) (h' : Cuts pending s cuts') :
    cuts = cuts' := by
  induction h generalizing cuts' with
  | done =>
    cases h' with
    | done => rfl
    | cut hopen _ _ => cases hopen
  | char hstray _ ih =>
    cases h' with
    | char _ hrest => exact ih hrest
    | cut hopen _ _ => cases hstray.symm.trans hopen
  | cut hopen hopens _ ih =>
    cases h' with
    | done => cases hopen
    | char hstray _ => cases hstray.symm.trans hopen
    | cut _ hopens' hrest' =>
      obtain rfl := opens_unique hopens hopens'
      rw [ih hrest']

/-! A document's pieces are the pieces of its text. -/

/-- Text with no opener in it is passed over, and waits for the tag behind it. -/
theorem cuts_chars {pending w s : Text} {cuts : List Cut} (hno : NoOpener w s) (h : Cuts (pending ++ w) s cuts) :
    Cuts pending (w ++ s) cuts := by
  induction w generalizing pending with
  | nil => simpa using h
  | cons c w ih =>
    refine .char (hno [] (c :: w) rfl (List.cons_ne_nil _ _)) (ih ?_ ?_)
    · intro front back hsplit hback
      exact hno (c :: front) back (by rw [hsplit, List.cons_append]) hback
    · rwa [List.append_assoc]

theorem cuts_pending {w s : Text} {cuts : List Cut} (hs : s = [] ∨ opensTag s = true) (h : Cuts [] s cuts) :
    Cuts w s (textCut w ++ cuts) := by
  cases h with
  | done =>
    rw [show textCut [] = [] from rfl, List.append_nil]
    exact .done
  | char hstray _ =>
    obtain hs | hs := hs
    · cases hs
    · cases hstray.symm.trans hs
  | cut hopen hopens hrest =>
    rw [show textCut [] = [] from rfl, List.nil_append, ← List.append_assoc]
    exact .cut hopen hopens hrest

theorem opensTag_opener {o : Text × Text} (ho : o ∈ openers) (s : Text) :
    opensTag (o.1 ++ s) = true ∧ openers.find? (·.1.isPrefixOf (o.1 ++ s)) = some o := by
  simp only [openers, List.mem_cons, List.not_mem_nil, or_false] at ho
  obtain rfl | rfl := ho
  · exact ⟨rfl, rfl⟩
  · exact ⟨rfl, rfl⟩

theorem opensTag_of_doc {cuts : List Cut} (h : Doc cuts) (hstarts : Starts cuts) :
    flat cuts = [] ∨ opensTag (flat cuts) = true := by
  cases h with
  | nil => exact .inl rfl
  | text _ _ _ _ => exact absurd rfl (hstarts _ _)
  | comment ho _ _ => exact .inr (opensTag_opener ho _).1
  | openComment ho _ => exact .inr (opensTag_opener ho _).1
  | element htag _ _ _ _ => exact .inr (by simpa using htag.whole.1)
  | openElement htag _ _ => exact .inr (by simpa using htag.whole.1)
  | tag htag _ _ => exact .inr htag.whole.1

/-- From behind its name on, the tag ends where it ends. -/
theorem scan_of_tag {tag rest u : Text} (front : Text) (h : Tag tag rest) (hsplit : tag = '<' :: (front ++ u))
    (hfront : ∀ c ∈ front, tagNameChar c = true) :
    TagTo (((tag ++ rest).drop (1 + front.length)).dropWhile tagNameChar) rest := by
  have hdrop : (tag ++ rest).drop (1 + front.length) = u ++ rest := by
    rw [hsplit, Nat.add_comm, List.cons_append, List.drop_succ_cons, List.append_assoc, List.drop_left]
  have hattributes : attributes tag = u.dropWhile tagNameChar := by
    rw [attributes, hsplit, List.drop_succ_cons, List.drop_zero, List.dropWhile_append_of_pos hfront]
  have hends := h.ends
  rw [hdrop]
  rw [hattributes] at hends
  obtain rfl | hgt := h.gt
  · rwa [List.append_nil] at hends ⊢
  · rw [hattributes] at hgt
    rwa [dropWhile_append (List.ne_nil_of_mem hgt)]

theorem unbordered_opener {o : Text × Text} (ho : o ∈ openers) : Unbordered (literal o.2) := by
  simp only [openers, List.mem_cons, List.not_mem_nil, or_false] at ho
  obtain rfl | rfl := ho
  · exact unbordered_literal (show '>' ∉ ['-', '-'] by decide)
  · exact unbordered_literal (show '>' ∉ [']', ']'] by decide)

theorem cuts_opened {s : Text} {opened : List Cut × Text} {cuts : List Cut} (hopen : opensTag s = true)
    (hopens : Opens s opened) (h : Cuts [] opened.2 cuts) : Cuts [] s (opened.1 ++ cuts) := by
  have hcut : Cuts [] s (textCut [] ++ opened.1 ++ cuts) := .cut hopen hopens h
  exact hcut

/-- A tag that opens a raw text element, and what is found behind it. -/
theorem opens_element {tag name rest : Text} (htag : Tag tag rest) (hname : rawTextName tag = some name) :
    '<' ∉ name ∧ Opens (tag ++ rest) (elementCuts name tag rest) := by
  obtain ⟨hletters, c, t, hsplit, -⟩ := rawTextName_some hname
  obtain ⟨-, hsections, hsame⟩ := htag.whole
  refine ⟨fun hmem => absurd (plain_of_caseless (hletters '<' hmem)) (by decide), .element hsections (hsame.trans hname) ?_⟩
  exact scan_of_tag name htag hsplit fun c hc => plain_tagNameChar (plain_of_caseless (hletters c hc))

theorem doc_cuts {cuts : List Cut} (h : Doc cuts) : Cuts [] (flat cuts) cuts := by
  induction h with
  | nil => exact .done
  | @text w cuts hw hno hstarts hdoc ih =>
    have hall := cuts_pending (w := w) (opensTag_of_doc hdoc hstarts) ih
    rw [textCut, if_neg hw] at hall
    exact cuts_chars hno hall
  | @comment o raw cuts ho hraw hdoc ih =>
    obtain ⟨hopen, hfind⟩ := opensTag_opener ho (raw ++ (o.2 ++ flat cuts))
    have hopens := Opens.comment hfind
    have hfound : search (literal o.2) (raw ++ (o.2 ++ flat cuts)) = some (raw.length, o.2.length) := by
      rw [← List.append_assoc]
      exact search_append (local_literal (opener_ne ho).2) (unbordered_opener ho) hraw
        (literal_eq_some.mpr ⟨List.prefix_refl _, rfl⟩) _
    rw [List.drop_left] at hopens
    simp only [sectionCuts, hfound, List.take_left] at hopens
    rw [← List.drop_drop, List.drop_left, List.drop_left] at hopens
    exact cuts_opened hopen hopens ih
  | @openComment o raw ho hraw =>
    obtain ⟨hopen, hfind⟩ := opensTag_opener ho raw
    have hopens := Opens.comment hfind
    rw [List.drop_left] at hopens
    simp only [sectionCuts, hraw] at hopens
    simpa [textCut] using cuts_opened hopen hopens .done
  | @element tag name raw close cuts htag hname hraw hclose hdoc ih =>
    obtain ⟨hlt, hopens⟩ := opens_element htag hname
    have hfound : search (closingAt name) (raw ++ (close ++ flat cuts)) = some (raw.length, close.length) := by
      rw [← List.append_assoc]
      exact search_append (local_closingAt name) (unbordered_closingAt hlt) hraw hclose _
    simp only [elementCuts, hfound, List.take_left, List.drop_left] at hopens
    rw [← List.drop_drop, List.drop_left, List.drop_left] at hopens
    have hall := cuts_opened htag.whole.1 hopens ih
    simpa using hall
  | @openElement tag name raw htag hname hraw =>
    obtain ⟨-, hopens⟩ := opens_element htag hname
    simp only [elementCuts, hraw] at hopens
    simpa [textCut] using cuts_opened htag.whole.1 hopens .done
  | @tag tag cuts htag hname hdoc ih =>
    obtain ⟨u, hsplit⟩ := opensTag_cons htag.opens
    obtain ⟨hopen, hsections, hsame⟩ := htag.whole
    have hto := scan_of_tag [] htag hsplit fun c hc => by cases hc
    exact cuts_opened hopen (.tag hsections (hsame.trans hname) hto) ih

/-! Pieces as they are written. -/

/-- The pieces that show: an empty text is no piece of a document. -/
def shown (cuts : List Cut) : List Cut := cuts.filter fun c => c.1 = .markup || c.2 ≠ []

def markups (cuts : List Cut) : List Text := (cuts.filter fun c => c.1 = .markup).map Prod.snd

/-- What ends the raw text behind a piece of markup. -/
def closer (tag : Text) : Recognizer Char :=
  match openers.find? (·.1.isPrefixOf tag) with
  | some o => literal o.2
  | none => closingAt ((rawTextName tag).getD [])

/-- No text opens a tag with what is behind it, no raw text holds what ends it, and no quote that a
tag leaves open comes behind it. `tag` is the last markup before. -/
def Settled : Text → List Cut → Prop
  | _, [] => True
  | tag, (.text, w) :: rest => NoOpener w (flat rest) ∧ Settled tag rest
  | tag, (.raw, w) :: rest => search (closer tag) w = none ∧ Settled tag rest
  | _, (.markup, w) :: rest => (∀ quote, LeavesOpen (attributes w) quote → quote ∉ flat rest) ∧ Settled w rest

/-- A piece and what is written for it. -/
def Written (cut cut' : Cut) : Prop := cut.1 = cut'.1 ∧ (cut.1 = .markup → cut.2 = cut'.2)

theorem flat_shown (cuts : List Cut) : flat (shown cuts) = flat cuts := by
  induction cuts with
  | nil => rfl
  | cons cut cuts ih =>
    unfold shown at ih ⊢
    rw [List.filter_cons]
    split
    · rw [flat_cons, flat_cons, ih]
    · rename_i hdrop
      have hnil : cut.2 = [] := by
        simp only [Bool.or_eq_true, decide_eq_true_eq, not_or, not_not] at hdrop
        exact hdrop.2
      rw [flat_cons, hnil, ih, List.nil_append]

theorem markups_shown (cuts : List Cut) : markups (shown cuts) = markups cuts := by
  unfold markups shown
  rw [List.filter_filter]
  congr 1
  refine List.filter_congr fun cut _ => ?_
  cases decide (cut.1 = .markup) <;> rfl

theorem markups_written {cuts ws : List Cut} (h : List.Forall₂ Written cuts ws) : markups cuts = markups ws := by
  induction h with
  | nil => rfl
  | @cons cut w cuts ws hw _ ih =>
    unfold markups at ih ⊢
    rw [List.filter_cons, List.filter_cons, ← hw.1]
    split
    · rename_i hmarkup
      rw [List.map_cons, List.map_cons, ih, hw.2 (of_decide_eq_true hmarkup)]
    · exact ih

theorem search_closer_nil (tag : Text) : search (closer tag) [] = none := by
  have hnil : closer tag [] = none := by
    unfold closer
    cases ho : openers.find? (·.1.isPrefixOf tag) with
    | none => rfl
    | some o =>
      obtain ⟨c, t, hct⟩ := List.exists_cons_of_ne_nil (opener_ne (List.mem_of_find?_eq_some ho)).2
      dsimp only
      rw [hct]
      rfl
  rw [search, hnil]
  rfl

/-- A piece that does not show meets its condition by itself. -/
theorem settled_shown (tag : Text) (cuts : List Cut) : Settled tag (shown cuts) ↔ Settled tag cuts := by
  induction cuts generalizing tag with
  | nil => rfl
  | cons cut cuts ih =>
    obtain ⟨kind, w⟩ := cut
    have hflat := flat_shown cuts
    have hcons : shown ((kind, w) :: cuts) =
        if kind = .markup ∨ w ≠ [] then (kind, w) :: shown cuts else shown cuts := by
      simp [shown, List.filter_cons]
    rw [hcons]
    split
    · cases kind with
      | text => rw [Settled, Settled, hflat, ih]
      | raw => rw [Settled, Settled, ih]
      | markup => rw [Settled, Settled, hflat, ih]
    · rename_i hdrop
      obtain ⟨hkind, hw⟩ := not_or.mp hdrop
      obtain rfl := not_not.mp hw
      rw [ih]
      cases kind with
      | text =>
        rw [Settled]
        have hno : NoOpener [] (flat cuts) := by
          intro front back hsplit hback
          exact absurd (List.append_eq_nil_iff.mp hsplit.symm).2 hback
        exact ⟨fun h => ⟨hno, h⟩, fun h => h.2⟩
      | raw =>
        rw [Settled]
        exact ⟨fun h => ⟨search_closer_nil tag, h⟩, fun h => h.2⟩
      | markup => exact absurd rfl hkind

theorem shown_rawCut (raw : Text) (cuts : List Cut) : shown (rawCut raw ++ cuts) = shown ((.raw, raw) :: cuts) := by
  unfold rawCut
  split
  · rename_i h
    simp [shown, h]
  · rfl

theorem shown_textCut (w : Text) (cuts : List Cut) : shown (textCut w ++ cuts) = shown ((.text, w) :: cuts) := by
  unfold textCut
  split
  · rename_i h
    simp [shown, h]
  · rfl

/-! The pieces of a document are settled. -/

theorem valueStep_more {s mid : Text} (h : valueStep s = .more mid) : ∀ c ∈ mid, c ∈ s := by
  cases s with
  | nil =>
    rw [valueStep] at h
    rw [← TagStep.more.inj h]
    exact fun c hc => hc
  | cons quote s =>
    rw [valueStep] at h
    split at h
    · split at h
      · rename_i rest hrest
        rw [← TagStep.more.inj h]
        exact fun c hc => List.mem_cons_of_mem _ ((afterChar_suffix hrest).1.subset hc)
      · cases h
    · rw [← TagStep.more.inj h]
      exact fun c hc => mem_of_mem_dropWhile hc

theorem tagStep_more {s mid : Text} (h : tagStep s = .more mid) : ∀ c ∈ mid, c ∈ s := by
  unfold tagStep at h
  split at h
  · cases h
  · rename_i c t hct
    have hsub : ∀ x ∈ t, x ∈ s := fun x hx => mem_of_mem_dropWhile (hct ▸ List.mem_cons_of_mem c hx)
    split at h
    · cases h
    · split at h
      · rw [← TagStep.more.inj h]
        exact hsub
      · have hafter : ∀ x ∈ (t.dropWhile attrNameChar).dropWhile Py.isSpace, x ∈ s := fun x hx =>
          hsub x (mem_of_mem_dropWhile (mem_of_mem_dropWhile hx))
        unfold attrStep at h
        split at h
        · rename_i v hv
          intro x hx
          refine hafter x ?_
          rw [hv]
          exact List.mem_cons_of_mem _ (mem_of_mem_dropWhile (valueStep_more h x hx))
        · rw [← TagStep.more.inj h]
          exact hafter

theorem tagValue_sub {s value : Text} (h : tagValue s = some value) : ∀ c ∈ value, c ∈ s := by
  unfold tagValue at h
  split at h
  · cases h
  · rename_i c t hct
    split at h
    · cases h
    · split at h
      · rename_i v hv
        rw [← Option.some.inj h]
        intro x hx
        have hafter : x ∈ (t.dropWhile attrNameChar).dropWhile Py.isSpace := by
          rw [hv]
          exact List.mem_cons_of_mem _ (mem_of_mem_dropWhile hx)
        exact mem_of_mem_dropWhile (hct ▸ List.mem_cons_of_mem c (mem_of_mem_dropWhile (mem_of_mem_dropWhile hafter)))
      · cases h

/-- A quote left open is a quote of the tag. -/
theorem mem_of_leavesOpen {s : Text} {quote : Char} (h : LeavesOpen s quote) : quote ∈ s ∧ isQuote quote = true := by
  induction h with
  | value hvalue hq _ => exact ⟨tagValue_sub hvalue _ List.mem_cons_self, hq⟩
  | more hstep _ ih => exact ⟨tagStep_more hstep _ ih.1, ih.2⟩

theorem not_leavesOpen {tag : Text} (h : ∀ c ∈ tag, isQuote c = false) (quote : Char) :
    ¬ LeavesOpen (attributes tag) quote := by
  intro hopen
  obtain ⟨hmem, hq⟩ := mem_of_leavesOpen hopen
  rw [h quote (List.mem_of_mem_drop (mem_of_mem_dropWhile hmem))] at hq
  cases hq

theorem opener_no_quotes {o : Text × Text} (ho : o ∈ openers) :
    (∀ c ∈ o.1, isQuote c = false) ∧ ∀ c ∈ o.2, isQuote c = false := by
  simp only [openers, List.mem_cons, List.not_mem_nil, or_false] at ho
  obtain rfl | rfl := ho
  · exact ⟨forall_mem_of_all (by decide), forall_mem_of_all (by decide)⟩
  · exact ⟨forall_mem_of_all (by decide), forall_mem_of_all (by decide)⟩

theorem closing_no_quotes {tag name close : Text} (hname : rawTextName tag = some name)
    (hclose : closingAt name close = some close.length) : ∀ c ∈ close, isQuote c = false := by
  obtain ⟨hletters, -⟩ := rawTextName_some hname
  obtain ⟨body, spaces, after, rfl, hlen, hsame, hspaces, hn⟩ := closingAt_some hclose
  have hafter : after = [] := by
    simp only [List.length_cons, List.length_append] at hn
    exact List.length_eq_zero_iff.mp (by omega)
  subst hafter
  have hbody : ∀ c ∈ body, isQuote c = false := by
    intro c hc
    have hplain := plain_of_caseless (letters_of_same hsame hletters c hc)
    simp only [plain, Bool.and_eq_true, Bool.not_eq_true'] at hplain
    exact hplain.1.2
  have hspace : ∀ c ∈ spaces, isQuote c = false := by
    intro c hc
    refine Bool.eq_false_iff.mpr fun hq => ?_
    have hcases : c = '"' ∨ c = '\'' := by simpa [isQuote] using hq
    have := hspaces c hc
    obtain rfl | rfl := hcases <;> cases this
  intro c hc
  simp only [List.mem_cons, List.mem_append, List.not_mem_nil, or_false] at hc
  obtain rfl | rfl | (hc | hc) | rfl := hc
  · rfl
  · rfl
  · exact hbody c hc
  · exact hspace c hc
  · rfl

theorem closer_opener {o : Text × Text} (ho : o ∈ openers) : closer o.1 = literal o.2 := by
  have hfind := (opensTag_opener ho []).2
  rw [List.append_nil] at hfind
  unfold closer
  rw [hfind]

theorem closer_tag {tag rest name : Text} (htag : Tag tag rest) (hname : rawTextName tag = some name) :
    closer tag = closingAt name := by
  unfold closer
  rw [htag.noSection, hname]
  rfl

/-- The pieces of a document are settled. -/
theorem doc_settled {cuts : List Cut} (h : Doc cuts) (last : Text) : Settled last cuts := by
  induction h generalizing last with
  | nil => exact trivial
  | text _ hno _ _ ih => exact ⟨hno, ih last⟩
  | @comment o raw cuts ho hraw _ ih =>
    obtain ⟨hleft, hright⟩ := opener_no_quotes ho
    refine ⟨fun quote hopen => absurd hopen (not_leavesOpen hleft quote), ?_,
      fun quote hopen => absurd hopen (not_leavesOpen hright quote), ih o.2⟩
    rw [closer_opener ho]
    exact hraw
  | @openComment o raw ho hraw =>
    refine ⟨fun quote hopen => absurd hopen (not_leavesOpen (opener_no_quotes ho).1 quote), ?_, trivial⟩
    rw [closer_opener ho]
    exact hraw
  | @element tag name raw close cuts htag hname hraw hclose _ ih =>
    have hraws : Settled tag ((.raw, raw) :: (.markup, close) :: cuts) := by
      refine ⟨?_, fun quote hopen => absurd hopen (not_leavesOpen (closing_no_quotes hname hclose) quote), ih close⟩
      rw [closer_tag htag hname]
      exact hraw
    refine ⟨fun quote hopen => ?_, ?_⟩
    · simpa using htag.shut hopen
    · rw [← settled_shown] at hraws ⊢
      rwa [shown_rawCut]
  | @openElement tag name raw htag hname hraw =>
    have hraws : Settled tag [(.raw, raw)] := by
      refine ⟨?_, trivial⟩
      rw [closer_tag htag hname]
      exact hraw
    refine ⟨fun quote hopen => ?_, ?_⟩
    · simpa using htag.shut hopen
    · rw [← settled_shown] at hraws ⊢
      have hshown := shown_rawCut raw []
      rw [List.append_nil] at hshown
      rwa [hshown]
  | @tag tag cuts htag _ _ ih => exact ⟨fun quote hopen => htag.shut hopen, ih _⟩

/-! Written pieces that are settled are the pieces of what they make up. -/

/-- A raw text in an element is there or not, before and after. -/
theorem written_rawCut {raw : Text} {cuts ws : List Cut} (h : List.Forall₂ Written (rawCut raw ++ cuts) ws) :
    ∃ raw' ws', List.Forall₂ Written cuts ws' ∧ shown ws = shown ((.raw, raw') :: ws') ∧ (raw = [] → raw' = []) := by
  unfold rawCut at h
  split at h
  · refine ⟨[], ws, h, ?_, fun _ => rfl⟩
    simp [shown]
  · rename_i hraw
    cases h with
    | @cons a w as ws' hw hrest =>
      obtain ⟨kind, raw'⟩ := w
      obtain rfl : Kind.raw = kind := hw.1
      exact ⟨raw', ws', hrest, rfl, fun hnil => absurd hnil hraw⟩

theorem flat_of_shown {cuts cuts' : List Cut} (h : shown cuts = shown cuts') : flat cuts = flat cuts' := by
  rw [← flat_shown cuts, h, flat_shown]

theorem shown_cons {cuts cuts' : List Cut} (cut : Cut) (h : shown cuts = shown cuts') :
    shown (cut :: cuts) = shown (cut :: cuts') := by
  unfold shown at h ⊢
  rw [List.filter_cons, List.filter_cons, h]

/-- Markup is written as it is. -/
theorem written_markup {tag : Text} {cuts ws : List Cut} (h : List.Forall₂ Written ((.markup, tag) :: cuts) ws) :
    ∃ ws', List.Forall₂ Written cuts ws' ∧ ws = (.markup, tag) :: ws' := by
  cases h with
  | @cons a w as ws' hw hrest =>
    obtain ⟨kind, content⟩ := w
    obtain rfl : Kind.markup = kind := hw.1
    obtain rfl : tag = content := hw.2 rfl
    exact ⟨ws', hrest, rfl⟩

theorem written_flat_nil {cuts ws : List Cut} (h : Doc cuts) (hw : List.Forall₂ Written cuts ws)
    (hnil : flat cuts = []) : flat ws = [] := by
  obtain rfl := h.eq_nil hnil
  cases hw
  rfl

theorem close_ne {name close : Text} (h : closingAt name close = some close.length) : close ≠ [] := by
  rintro rfl
  cases h

theorem doc_of_settled {cuts ws : List Cut} (h : Doc cuts) (hw : List.Forall₂ Written cuts ws) (last : Text)
    (hsettled : Settled last ws) :
    ∃ ws', Doc ws' ∧ shown ws' = shown ws ∧ (Starts cuts → Starts ws') := by
  induction h generalizing ws last with
  | nil =>
    cases hw
    exact ⟨[], .nil, rfl, id⟩
  | @text w cuts _ _ hstarts _ ih =>
    cases hw with
    | @cons _ written _ ws' hkind hrest =>
      obtain ⟨kind, w'⟩ := written
      obtain rfl : Kind.text = kind := hkind.1
      obtain ⟨built, hbuilt, hshown, hmarkup⟩ := ih hrest last hsettled.2
      refine ⟨textCut w' ++ built, doc_textCut ?_ (hmarkup hstarts) hbuilt, ?_, fun h => absurd rfl (h _ _)⟩
      · rw [flat_of_shown hshown]
        exact hsettled.1
      · rw [shown_textCut]
        exact shown_cons _ hshown
  | @comment o raw cuts ho _ _ ih =>
    obtain ⟨ws, hrest, rfl⟩ := written_markup hw
    cases hrest with
    | @cons _ written _ ws' hkind hrest =>
      obtain ⟨kind, raw'⟩ := written
      obtain rfl : Kind.raw = kind := hkind.1
      obtain ⟨ws, hlast, rfl⟩ := written_markup hrest
      obtain ⟨-, hraw, -, hsettled⟩ := hsettled
      obtain ⟨built, hbuilt, hshown, -⟩ := ih hlast o.2 hsettled
      rw [closer_opener ho] at hraw
      exact ⟨_, .comment ho hraw hbuilt, shown_cons _ (shown_cons _ (shown_cons _ hshown)),
        fun _ => starts_markup _ _⟩
  | @openComment o raw ho _ =>
    obtain ⟨ws, hrest, rfl⟩ := written_markup hw
    cases hrest with
    | @cons _ written _ ws' hkind hrest =>
      obtain ⟨kind, raw'⟩ := written
      obtain rfl : Kind.raw = kind := hkind.1
      cases hrest
      obtain ⟨-, hraw, -⟩ := hsettled
      rw [closer_opener ho] at hraw
      exact ⟨_, .openComment ho hraw, rfl, fun _ => starts_markup _ _⟩
  | @element tag name raw close cuts htag hname _ hclose _ ih =>
    obtain ⟨ws, hrest, rfl⟩ := written_markup hw
    obtain ⟨raw', ws', hclosed, hws, -⟩ := written_rawCut hrest
    obtain ⟨ws', hlast, rfl⟩ := written_markup hclosed
    obtain ⟨hshut, hsettled⟩ := hsettled
    rw [← settled_shown, hws, settled_shown] at hsettled
    obtain ⟨hraw, -, hsettled⟩ := hsettled
    obtain ⟨built, hbuilt, hshown, -⟩ := ih hlast close hsettled
    rw [closer_tag htag hname] at hraw
    have htag' : Tag tag (raw' ++ (close ++ flat built)) := by
      refine htag.change (fun hnil => ?_) fun quote hopen => ?_
      · exact absurd (List.append_eq_nil_iff.mp (List.append_eq_nil_iff.mp hnil).2).1 (close_ne hclose)
      · rw [flat_of_shown hshown]
        simpa [flat_of_shown hws] using hshut quote hopen
    refine ⟨_, .element htag' hname hraw hclose hbuilt, ?_, fun _ => starts_markup _ _⟩
    refine shown_cons _ ?_
    rw [shown_rawCut, hws]
    exact shown_cons _ (shown_cons _ hshown)
  | @openElement tag name raw htag hname _ =>
    obtain ⟨ws, hrest, rfl⟩ := written_markup hw
    rw [← List.append_nil (rawCut raw)] at hrest
    obtain ⟨raw', ws', hlast, hws, hempty⟩ := written_rawCut hrest
    cases hlast
    obtain ⟨hshut, hsettled⟩ := hsettled
    rw [← settled_shown, hws, settled_shown] at hsettled
    obtain ⟨hraw, -⟩ := hsettled
    rw [closer_tag htag hname] at hraw
    have htag' : Tag tag raw' := by
      refine htag.change hempty fun quote hopen => ?_
      simpa [flat_of_shown hws] using hshut quote hopen
    refine ⟨_, .openElement htag' hname hraw, ?_, fun _ => starts_markup _ _⟩
    refine shown_cons _ ?_
    rw [← List.append_nil (rawCut raw'), shown_rawCut, hws]
  | @tag tag cuts htag hname hdoc ih =>
    obtain ⟨ws, hrest, rfl⟩ := written_markup hw
    obtain ⟨built, hbuilt, hshown, -⟩ := ih hrest tag hsettled.2
    have htag' : Tag tag (flat built) := by
      rw [flat_of_shown hshown]
      exact htag.change (written_flat_nil hdoc hrest) hsettled.1
    exact ⟨_, .tag htag' hname hbuilt, shown_cons _ hshown, fun _ => starts_markup _ _⟩

/-! Masked documents. -/

/-- A segment as it is written. -/
def writtenCut (unescape : Unescape) (rules : List MaskingRule) (document : Text) (s : Segment) : Cut :=
  (s.kind, (maskSegment unescape rules document s).1)

def cutsOf (document : Text) : List Cut := (htmlSegments document).map (cutOf document)

def writtenCuts (unescape : Unescape) (rules : List MaskingRule) (document : Text) : List Cut :=
  (htmlSegments document).map (writtenCut unescape rules document)

theorem maskSegment_written (unescape : Unescape) (rules : List MaskingRule) (document : Text) (s : Segment) :
    Written (cutOf document s) (writtenCut unescape rules document s) := by
  refine ⟨rfl, fun hmarkup => ?_⟩
  have hkind : s.kind = .markup := hmarkup
  simp [cutOf, writtenCut, maskSegment, hkind]

/-- A segment without hits is written as it is. -/
theorem maskSegment_clean {unescape : Unescape} {rules : List MaskingRule} {document : Text} {s : Segment}
    (h : (maskSegment unescape rules document s).2 = 0) :
    (maskSegment unescape rules document s).1 = content document s := by
  unfold maskSegment at h ⊢
  dsimp only at h ⊢
  by_cases hmask : s.kind ≠ .markup ∧ content document s ≠ []
  · rw [if_pos hmask] at h ⊢
    by_cases hhits : (maskHtmlText unescape (content document s) rules (s.kind = .text)).2 ≠ 0
    · rw [if_pos hhits] at h
      exact absurd h hhits
    · rw [if_neg hhits]
  · rw [if_neg hmask]

theorem edits_nil (unescape : Unescape) (segment : Text) (decodeEntities : Bool) :
    edits unescape segment [] decodeEntities = [] := by
  unfold edits
  simp [findMaskedSpans, locate]

/-- The document is written segment by segment. -/
theorem maskHtmlDocument_flat (unescape : Unescape) (document : Text) (rules : List MaskingRule) :
    (maskHtmlDocument unescape document rules).1 = flat (writtenCuts unescape rules document) := by
  have hflat : flat (writtenCuts unescape rules document) =
      (htmlSegments document).flatMap fun s => (maskSegment unescape rules document s).1 := by
    rw [flat, writtenCuts, List.flatMap_map]
    rfl
  have hclean : (∀ s ∈ htmlSegments document, (maskSegment unescape rules document s).2 = 0) →
      flat (writtenCuts unescape rules document) = document := by
    intro hall
    rw [hflat]
    calc (htmlSegments document).flatMap (fun s => (maskSegment unescape rules document s).1)
        = (htmlSegments document).flatMap (content document) := by
          rw [List.flatMap_def, List.flatMap_def]
          congr 1
          exact List.map_congr_left fun s hs => maskSegment_clean (hall s hs)
      _ = document := contents_flatten document
  unfold maskHtmlDocument
  split
  · rename_i hempty
    refine (hclean fun s hs => ?_).symm
    obtain rfl | rfl := hempty
    · simp [maskSegment, content, slice]
    · simp [maskSegment, maskHtmlText, edits_nil]
  · dsimp only
    split
    · rw [hflat, List.flatMap_map]
    · rename_i hsum
      refine (hclean fun s hs => ?_).symm
      have hzero := List.sum_eq_zero_iff_forall_eq_nat.mp (not_not.mp hsum)
      exact hzero _ (List.mem_map_of_mem (List.mem_map_of_mem hs))

theorem cutsOf_doc (document : Text) : Doc (cutsOf document) ∧ flat (cutsOf document) = document := by
  have hno : NoOpener [] document := by
    intro front back hsplit hback
    exact absurd (List.append_eq_nil_iff.mp hsplit.symm).2 hback
  obtain ⟨hflat, hdoc⟩ := Doc.of_cuts (htmlSegmentsWithin_cuts document).2.2 hno
  exact ⟨hdoc, hflat⟩

/-- The masked document has the segments of the document, each as it is written, and so the same markup. -/
def MarkupKept (unescape : Unescape) (rules : List MaskingRule) (document : Text) : Prop :=
  let masked := (maskHtmlDocument unescape document rules).1
  markups (cutsOf masked) = markups (cutsOf document) ∧
    shown (cutsOf masked) = shown (writtenCuts unescape rules document)

/-- Every `c`, with `mask` in its place. -/
def occurrences (c : Char) (mask : Text) : Nat → Text → List Match
  | _, [] => []
  | i, d :: s => if d = c then ⟨i, i + 1, mask⟩ :: occurrences c mask (i + 1) s else occurrences c mask (i + 1) s

theorem occurrences_inOrder (c : Char) (mask : Text) (i : Nat) (s : Text) :
    InOrder (i + s.length) i ((occurrences c mask i s).map Match.span) := by
  induction s generalizing i with
  | nil => trivial
  | cons d s ih =>
    have hrest := ih (i + 1)
    rw [List.length_cons, Nat.add_comm s.length, ← Nat.add_assoc]
    rw [occurrences]
    split
    · exact ⟨Nat.le_refl _, Nat.le_succ _, Nat.le_add_right _ _, hrest⟩
    · exact hrest.weaken (Nat.le_succ _)

/-- A policy on the digit five, masked by a letter. -/
def fiveRule : MaskingRule where
  policyId := some 1
  policyName := "five"
  policyType := "pii"
  finditer := occurrences '5' ['b'] 0
  ordered := fun text => by simpa using occurrences_inOrder '5' ['b'] 0 text

end XgenSdk.HtmlStable
