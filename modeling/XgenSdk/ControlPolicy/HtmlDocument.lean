import XgenSdk.ControlPolicy.HtmlCuts

/-! The segments of a document lose nothing, and masking leaves markup as it is. -/
namespace XgenSdk.HtmlDocument
open XgenSdk.Search XgenSdk.Splice XgenSdk.Rules XgenSdk.Html XgenSdk.HtmlScan XgenSdk.HtmlCuts

/-- Calls of `_find`, one after the other. -/
def findAll (document : Text) : Found → List (Char × Nat) → List (Option Nat)
  | _, [] => []
  | found, (quote, start) :: calls =>
    let answer := Html.find document found quote start
    answer.1 :: findAll document answer.2 calls

theorem findAll_eq {document : Text} {found : Found} (h : Remembers document found) (calls : List (Char × Nat)) :
    findAll document found calls = calls.map fun call => findFrom document [call.1] call.2 := by
  induction calls generalizing found with
  | nil => rfl
  | cons call calls ih =>
    obtain ⟨hanswer, hfound⟩ := find_eq h call.1 call.2
    rw [List.map_cons, ← hanswer, ← ih hfound]
    rfl

/-- More rounds change nothing. -/
theorem segmentLoop_succ {document : Text} (fuel : Nat) {found : Found} {pos textStart : Nat}
    {segments : List Segment} (h : segmentLoop document fuel found pos textStart = some segments) :
    segmentLoop document (fuel + 1) found pos textStart = some segments := by
  induction fuel generalizing found pos textStart segments with
  | zero =>
    unfold segmentLoop at h ⊢
    cases hfind : findFrom document ['<'] pos with
    | none =>
      rw [hfind] at h
      exact h
    | some lt =>
      rw [hfind] at h
      cases h
  | succ fuel ih =>
    rw [segmentLoop] at h
    rw [segmentLoop]
    cases hfind : findFrom document ['<'] pos with
    | none =>
      rw [hfind] at h
      exact h
    | some lt =>
      rw [hfind] at h
      dsimp only at h ⊢
      split at h
      · rename_i hstray
        rw [if_pos hstray]
        exact ih h
      · rename_i hopen
        rw [if_neg hopen]
        obtain ⟨cut, hcut, h⟩ := Option.bind_eq_some_iff.mp h
        obtain ⟨rest, hrest, h⟩ := Option.bind_eq_some_iff.mp h
        exact Option.bind_eq_some_iff.mpr ⟨cut, hcut, Option.bind_eq_some_iff.mpr ⟨rest, ih hrest, h⟩⟩

theorem htmlSegmentsWithin_cuts (document : Text) :
    htmlSegmentsWithin document.length document = some (htmlSegments document) ∧
      Chain 0 document.length (htmlSegments document) ∧
      Cuts [] document ((htmlSegments document).map (cutOf document)) := by
  obtain ⟨segments, hsegments, hchain, hcuts⟩ := segmentLoop_cuts document.length
    (Remembers.nil document) (Nat.le_refl 0) (Nat.zero_le _) (Nat.le_refl _)
  have hdef : htmlSegments document = segments := by
    rw [htmlSegments, htmlSegmentsWithin, hsegments]
    rfl
  rw [hdef]
  rw [slice_self, List.drop_zero] at hcuts
  exact ⟨hsegments, hchain, hcuts⟩

theorem contents_flatten (document : Text) : (htmlSegments document).flatMap (content document) = document := by
  rw [(htmlSegmentsWithin_cuts document).2.1.contents, slice_full]

/-- The pieces of the masked document, one for each segment. -/
theorem maskHtmlDocument_pieces (unescape : Unescape) (document : Text) (rules : List MaskingRule) :
    ∃ pieces, (maskHtmlDocument unescape document rules).1 = pieces.flatten ∧
      List.Forall₂ (fun s piece => s.kind = .markup → piece = content document s)
        (htmlSegments document) pieces := by
  have hsame : ∃ pieces, document = pieces.flatten ∧ List.Forall₂ (fun s piece => s.kind = .markup →
      piece = content document s) (htmlSegments document) pieces := by
    refine ⟨(htmlSegments document).map (content document), ?_, ?_⟩
    · rw [← List.flatMap_def]
      exact (contents_flatten document).symm
    · rw [List.forall₂_map_right_iff, List.forall₂_same]
      exact fun s _ _ => rfl
  unfold maskHtmlDocument
  split
  · exact hsame
  · dsimp only
    split
    · refine ⟨(htmlSegments document).map fun s => (maskSegment unescape rules document s).1, ?_, ?_⟩
      · rw [List.flatMap_def, List.map_map]
        rfl
      · rw [List.forall₂_map_right_iff, List.forall₂_same]
        intro s _ hmarkup
        simp [maskSegment, hmarkup]
    · exact hsame

/-- The scan ends and loses nothing, its memory of quotes never misleads it, and
markup comes through masking as it is and in its order. -/
theorem htmlSegments_lossless (document : Text) :
    (∀ extra, htmlSegmentsWithin (document.length + extra) document = some (htmlSegments document)) ∧
    Chain 0 document.length (htmlSegments document) ∧
    (htmlSegments document).flatMap (content document) = document ∧
    (∀ calls, findAll document [] calls = calls.map fun call => findFrom document [call.1] call.2) ∧
    ∀ unescape rules, ∃ pieces, (maskHtmlDocument unescape document rules).1 = pieces.flatten ∧
      List.Forall₂ (fun s piece => s.kind = .markup → piece = content document s)
        (htmlSegments document) pieces := by
  obtain ⟨hends, hchain, -⟩ := htmlSegmentsWithin_cuts document
  refine ⟨fun extra => ?_, hchain, contents_flatten document, findAll_eq (Remembers.nil document),
    fun unescape rules => maskHtmlDocument_pieces unescape document rules⟩
  induction extra with
  | zero => exact hends
  | succ extra ih => exact segmentLoop_succ _ ih

end XgenSdk.HtmlDocument
