import XgenSdk.Auth.DocumentCapability
import XgenSdk.Lib.Outcomes

/-! What a string that is no capability makes the verifier raise: a refusal, apart from
three steps that raise errors of their own. -/
namespace XgenSdk.DocumentCapability
open XgenSdk.Py XgenSdk.Checks XgenSdk.Outcomes
open XgenSdk.Principal (Bytes Fields Retiring hasKeys hasKeys_perm isText jsonSegment ascii_base64 segment_ne_nil)
variable {lib : Libraries} {env : Environment} {clock : Int} {token : String} {trustedKeys now : Option Json}

/-- `DocumentCapabilityValidationError`, or its subclass. -/
def CapabilityError.IsRefusal : CapabilityError → Prop
  | .validation _ | .configuration _ => True
  | .unicodeEncode | .uncaught _ => False

/-- It ends with a value or with a refusal. -/
def Refuses {α : Type} (x : Checked α) : Prop := Ends CapabilityError.IsRefusal (fun _ => True) x

/-- The text of a segment makes `json.loads` raise what is not caught. -/
def Escapes (lib : Libraries) (segment : List Char) : Prop :=
  ∃ raw text e, decodeSegment segment "non-canonical JWT encoding" = .ok raw ∧ utf8Text raw = some text ∧
    lib.parseJson text = none ∧ lib.uncaught text = some e

/-- A header that names a key of the keyring, and a signature in its one spelling. -/
def Identified (lib : Libraries) (env : Environment) (trustedKeys : Option Json) (head signature : List Char)
    (key : Retiring Bytes) (tag : Bytes) : Prop :=
  ∃ header kid keyring, decodeJsonSegment lib head = .ok header ∧ hasKeys header headerKeys = true ∧
    isText (Json.lookup "alg" header) "HS256" = true ∧ isText (Json.lookup "typ" header) "JWT" = true ∧
    keyId (Json.lookup "kid" header) "JWT kid" false = .ok kid ∧ selectedKeyring lib env trustedKeys = .ok keyring ∧
    selectKey keyring kid = .ok key ∧ decodeSegment signature "non-canonical JWT signature" = .ok tag

/-- Three segments of which the header escapes, or it is a header before a payload that is
not ASCII, or before a signed one that escapes. -/
def Breaks (lib : Libraries) (env : Environment) (trustedKeys : Option Json) (token : String) : Prop :=
  (token.toList.filter isAscii).length ≤ maxCapabilityBytes ∧ ∃ head body signature,
    token.toList.splitOn '.' = [head, body, signature] ∧ head ≠ [] ∧ body ≠ [] ∧ signature ≠ [] ∧
    (Escapes lib head ∨ ∃ key tag, Identified lib env trustedKeys head signature key tag ∧
      (body.all isAscii = false ∨ tag = lib.hmac key.1 (head ++ '.' :: body) ∧ Escapes lib body))

theorem refuses_iff {α : Type} {x : Checked α} : Refuses x ↔ (∃ a, x = .ok a) ∨ ∃ e, x = .error e ∧ e.IsRefusal := by
  rw [Refuses, ends_iff]
  simp only [and_true]

theorem refuse_refuses {wrong : Bool} {error : CapabilityError} (h : error.IsRefusal) : Refuses (refuse wrong error) := by
  cases wrong with
  | false => exact trivial
  | true => exact h

theorem decodeSegment_refuses (segment : List Char) (message : String) : Refuses (decodeSegment segment message) := by
  unfold decodeSegment
  split
  · exact trivial
  · split
    · exact trivial
    · split <;> exact trivial

/-- Only the text of a segment can escape. -/
theorem decodeJsonSegment_refuses_iff {segment : List Char} : Refuses (decodeJsonSegment lib segment) ↔ ¬ Escapes lib segment := by
  rw [Refuses, decodeJsonSegment, ends_bind_iff]
  refine (and_iff_right (decodeSegment_refuses segment _)).trans ?_
  constructor
  · rintro h ⟨raw, text, e, hraw, htext, hparse, huncaught⟩
    have hends := h raw hraw
    rw [htext] at hends
    simp only [Option.bind_some, loads, hparse, Option.filter_none, Option.elim_some, loadsFailure, if_true, huncaught] at hends
    exact hends
  · intro h raw hraw
    split
    · exact trivial
    · cases htext : utf8Text raw with
      | none => exact trivial
      | some text =>
        rw [Option.elim_some, loadsFailure]
        split
        · rename_i hparse
          cases huncaught : lib.uncaught text with
          | none => exact trivial
          | some e => exact absurd ⟨raw, text, e, hraw, htext, hparse, huncaught⟩ h
        · exact trivial

theorem keyId_refuses (value : Option Json) (source : String) (configuration : Bool) :
    Refuses (keyId value source configuration) := by
  unfold keyId
  cases configuration <;> dsimp only <;> split <;> first | exact trivial | (split <;> exact trivial)

theorem selectKey_refuses (keyring : Keyring) (kid : String) : Refuses (selectKey keyring kid) := by
  unfold selectKey
  split <;> exact trivial

theorem timestamp_refuses (value : Option Json) : Refuses (timestamp value) := by
  unfold timestamp
  split <;> exact trivial

theorem checkedNow_refuses (now : Json) : Refuses (checkedNow now) := by
  unfold checkedNow
  split <;> exact trivial

theorem nonemptyString_refuses (value : Option Json) (claim : String) : Refuses (nonemptyString value claim) := by
  unfold nonemptyString
  dsimp only
  split
  · split <;> exact trivial
  · exact trivial

theorem plainDeploymentId_refuses (s : String) : Refuses (plainDeploymentId s) := by
  unfold plainDeploymentId
  split <;> exact trivial

theorem checkedDeploymentId_refuses (value : Option Json) : Refuses (checkedDeploymentId value) := by
  unfold checkedDeploymentId
  split
  · exact plainDeploymentId_refuses _
  · exact plainDeploymentId_refuses _
  · exact trivial

theorem checkedDigest_refuses (value : Option Json) (claim : String) : Refuses (checkedDigest value claim) := by
  unfold checkedDigest
  dsimp only
  split
  · split <;> exact trivial
  · exact trivial

theorem checkedOperations_refuses (value : Option Json) : Refuses (checkedOperations value) := by
  unfold checkedOperations
  dsimp only
  split
  · split
    · split <;> exact trivial
    · exact trivial
  · exact trivial

theorem canonicalBusinessClaims_refuses (claims : Json) : Refuses (canonicalBusinessClaims claims) := by
  unfold canonicalBusinessClaims
  split
  · refine Ends.bind (refuse_refuses trivial) fun _ _ => ?_
    refine Ends.bind (checkedDeploymentId_refuses _) fun _ _ => ?_
    refine Ends.bind (checkedDigest_refuses _ _) fun _ _ => ?_
    refine Ends.bind (checkedDigest_refuses _ _) fun _ _ => ?_
    refine Ends.bind (checkedOperations_refuses _) fun _ _ => ?_
    refine Ends.bind (nonemptyString_refuses _ _) fun _ _ => ?_
    exact Ends.bind (nonemptyString_refuses _ _) fun _ _ => trivial
  · exact trivial

theorem checkPayload_refuses (clock : Int) (now : Option Json) (cutoff : Option Int) (payload : Fields) :
    Refuses (checkPayload clock now cutoff payload) := by
  unfold checkPayload
  refine Ends.bind (refuse_refuses trivial) fun _ _ => ?_
  refine Ends.bind (refuse_refuses trivial) fun _ _ => ?_
  refine Ends.bind (timestamp_refuses _) fun _ _ => ?_
  refine Ends.bind (timestamp_refuses _) fun _ _ => ?_
  refine Ends.bind (checkedNow_refuses _) fun _ _ => ?_
  refine Ends.bind (refuse_refuses trivial) fun _ _ => ?_
  refine Ends.bind (refuse_refuses trivial) fun _ _ => ?_
  exact Ends.bind (nonemptyString_refuses _ _) fun _ _ => trivial

/-- Past a check, all depends on what follows it. -/
theorem refuse_bind_refuses {α : Type} {wrong : Bool} {error : CapabilityError} (h : error.IsRefusal) {f : Unit → Checked α}
    (hf : wrong = false → Refuses (f ())) : Refuses (refuse wrong error >>= f) := by
  cases wrong with
  | false => exact hf rfl
  | true => exact h

theorem Breaks.not_refuses (hbreaks : Breaks lib env trustedKeys token) :
    ¬ Refuses (verifyDocumentCapability lib env clock token trustedKeys now) := by
  rw [verifyDocumentCapability]
  intro h
  obtain ⟨hsize, head, body, signature, hparts, hhead, hbody, hsignature, hescape⟩ := hbreaks
  have hshort : decide ((token.toList.filter isAscii).length > maxCapabilityBytes) = false := decide_eq_false (not_lt.mpr hsize)
  have hfull : decide (head = [] ∨ body = [] ∨ signature = []) = false :=
    decide_eq_false (not_or.mpr ⟨hhead, not_or.mpr ⟨hbody, hsignature⟩⟩)
  rw [hshort, refuse_false, ok_bind, hparts] at h
  dsimp only at h
  rw [hfull, refuse_false, ok_bind, Refuses, ends_bind_iff] at h
  obtain ⟨hheader, h⟩ := h
  obtain hescape | ⟨key, tag, ⟨header, kid, keyring', hdecode, hnames, halg, htyp, hkid, hring, hselect, htag⟩, hbreak⟩ := hescape
  · exact decodeJsonSegment_refuses_iff.mp hheader hescape
  · have h := h header hdecode
    have hfields : (!(hasKeys header headerKeys && isText (Json.lookup "alg" header) "HS256" &&
        isText (Json.lookup "typ" header) "JWT")) = false := by rw [hnames, halg, htyp]; rfl
    rw [hfields, refuse_false, ok_bind, hkid, ok_bind, hring, ok_bind, hselect, ok_bind, htag, ok_bind] at h
    cases hascii : body.all isAscii with
    | false =>
      rw [hascii] at h
      exact h
    | true =>
      obtain hnot | ⟨rfl, hescape⟩ := hbreak
      · rw [hascii] at hnot
        cases hnot
      · have hsigned : decide (lib.hmac key.1 (head ++ '.' :: body) ≠ lib.hmac key.1 (head ++ '.' :: body)) = false :=
          decide_eq_false (not_not.mpr rfl)
        rw [hascii, Bool.not_true, refuse_false, ok_bind, hsigned, refuse_false, ok_bind, ends_bind_iff] at h
        exact decodeJsonSegment_refuses_iff.mp h.1 hescape

theorem refuses_of_not_breaks {keyring : Keyring} (hkeyring : selectedKeyring lib env trustedKeys = .ok keyring)
    (hnot : ¬ Breaks lib env trustedKeys token) :
    Refuses (verifyDocumentCapability lib env clock token trustedKeys now) := by
  have hkeys : Refuses (selectedKeyring lib env trustedKeys) := hkeyring ▸ trivial
  rw [verifyDocumentCapability]
  refine refuse_bind_refuses (by exact trivial) fun hshort => ?_
  split
  · rename_i head body signature hparts
    refine refuse_bind_refuses (by exact trivial) fun hfull => ?_
    obtain ⟨hhead, hbody, hsignature⟩ := (not_or.mp (of_decide_eq_false hfull)).imp_right not_or.mp
    have hbreaks := fun h => hnot ⟨not_lt.mp (of_decide_eq_false hshort), head, body, signature, hparts, hhead, hbody, hsignature, h⟩
    refine ends_bind_iff.mpr ⟨decodeJsonSegment_refuses_iff.mpr fun h => hbreaks (.inl h), fun header hdecode => ?_⟩
    refine refuse_bind_refuses (by exact trivial) fun hfields => ?_
    refine ends_bind_iff.mpr ⟨keyId_refuses _ _ _, fun kid hkid => ?_⟩
    refine ends_bind_iff.mpr ⟨hkeys, fun ring hring => ?_⟩
    refine ends_bind_iff.mpr ⟨selectKey_refuses _ _, fun key hselect => ?_⟩
    refine ends_bind_iff.mpr ⟨decodeSegment_refuses _ _, fun tag htag => ?_⟩
    simp only [Bool.not_eq_eq_eq_not, Bool.not_false, Bool.and_eq_true] at hfields
    obtain ⟨⟨hnames, halg⟩, htyp⟩ := hfields
    have hidentified : Identified lib env trustedKeys head signature key tag :=
      ⟨header, kid, ring, hdecode, hnames, halg, htyp, hkid, hring, hselect, htag⟩
    cases hascii : body.all isAscii with
    | false => exact absurd (.inr ⟨key, tag, hidentified, .inl hascii⟩) hbreaks
    | true =>
      rw [Bool.not_true, refuse_false, ok_bind]
      refine refuse_bind_refuses (by exact trivial) fun hsigned => ?_
      have hsame : tag = lib.hmac key.1 (head ++ '.' :: body) := not_not.mp (of_decide_eq_false hsigned)
      refine ends_bind_iff.mpr ⟨decodeJsonSegment_refuses_iff.mpr fun h =>
        hbreaks (.inr ⟨key, tag, hidentified, .inr ⟨hsame, h⟩⟩), fun payload _ => ?_⟩
      refine ends_bind_iff.mpr ⟨checkPayload_refuses _ _ _ _, fun _ _ => ?_⟩
      refine ends_bind_iff.mpr ⟨canonicalBusinessClaims_refuses _, fun _ _ => ?_⟩
      exact refuse_bind_refuses (by exact trivial) fun _ => trivial
  · exact trivial

/-- With a keyring, a token is refused or verified exactly if it does not break. -/
theorem verify_refuses_iff (clock : Int) (token : String) (now : Option Json)
    (hvalid : ∃ keyring, selectedKeyring lib env trustedKeys = .ok keyring) :
    (∃ payload, verifyDocumentCapability lib env clock token trustedKeys now = .ok payload) ∨
      (∃ e, verifyDocumentCapability lib env clock token trustedKeys now = .error e ∧ e.IsRefusal) ↔
    ¬ Breaks lib env trustedKeys token := by
  obtain ⟨keyring, hkeyring⟩ := hvalid
  rw [← refuses_iff]
  exact ⟨fun h hbreaks => hbreaks.not_refuses h, refuses_of_not_breaks hkeyring⟩

theorem verify_refuses_short :
    (∃ payload, verifyDocumentCapability (longLibraries 0) documents 0 "x.y.z" (some currentKeys) none = .ok payload) ∨
      ∃ e, verifyDocumentCapability (longLibraries 0) documents 0 "x.y.z" (some currentKeys) none = .error e ∧ e.IsRefusal := by
  obtain ⟨keyring, -, hkeyring, -⟩ := long_trusts 0
  refine (verify_refuses_iff 0 "x.y.z" none ⟨keyring, hkeyring⟩).mpr ?_
  rintro ⟨-, head, body, signature, hparts, -, -, -, hescape⟩
  have hsplit : "x.y.z".toList.splitOn '.' = [['x'], ['y'], ['z']] := by decide
  rw [hsplit] at hparts
  simp only [List.cons.injEq] at hparts
  have hwrong : ∀ raw, decodeSegment ['x'] "non-canonical JWT encoding" ≠ .ok raw := by
    have herror : decodeSegment ['x'] "non-canonical JWT encoding" = .error invalidCapability := by decide
    intro raw hraw
    rw [herror] at hraw
    cases hraw
  rw [← hparts.1] at hescape
  obtain ⟨raw, -, -, hraw, -⟩ | ⟨_, _, ⟨header, _, _, hdecode, -⟩, -⟩ := hescape
  · exact hwrong raw hraw
  · obtain ⟨raw, hraw, -⟩ := bind_ok hdecode
    exact hwrong raw hraw

/-- The header of a capability, a letter that is not ASCII and no signature of it. -/
def accented : String := String.ofList (jsonSegment (longCapability 0).header ++ '.' :: 'é' :: '.' :: "AAAA".toList)

theorem accented_breaks : Breaks (longLibraries 0) documents (some currentKeys) accented := by
  have hnone : '.' ∉ jsonSegment (longCapability 0).header := fun hmem => (ascii_base64 _ hmem).2 rfl
  have hrest : ('é' :: '.' :: "AAAA".toList).splitOn '.' = [['é'], "AAAA".toList] := by decide
  have hlength : (jsonSegment (longCapability 0).header).length = 58 := by
    have h := Principal.length_jsonSegment (longCapability 0).header
    have hdumps : (Json.dumps (.obj (longCapability 0).header)).length = 43 := by
      change (Json.dumps (.obj [("alg", .str "HS256"), ("typ", .str "JWT"), ("kid", .str "current")])).length = 43
      decide
    rw [hdumps] at h
    exact h
  refine ⟨?_, jsonSegment (longCapability 0).header, ['é'], "AAAA".toList, ?_, segment_ne_nil _, by decide, by decide,
    .inr ⟨(Principal.sharedKey, none), [0, 0, 0], ?_, .inl (by decide)⟩⟩
  · refine (List.length_filter_le _ _).trans ?_
    rw [accented, String.toList_ofList, List.length_append, hlength]
    decide
  · rw [accented, String.toList_ofList, List.splitOn_append_cons_self_of_not_mem hnone, hrest]
  · have hheader := decode_header (long_readsBack 0)
    refine ⟨_, "current", [("current", Principal.sharedKey, none)], hheader, ?_, ?_, ?_, ?_, by decide, by decide, by decide⟩
    · rw [hasKeys_perm (Json.byKey_perm _)]
      rfl
    · rw [lookup_header (f := ("alg", .str "HS256")) (by simp [Capability.header])]
      rfl
    · rw [lookup_header (f := ("typ", .str "JWT")) (by simp [Capability.header])]
      rfl
    · rw [lookup_header (f := ("kid", .str "current")) (by simp [Capability.header, longCapability])]
      decide

/-- Such a token raises `UnicodeEncodeError`. -/
theorem accented_not_refused :
    ¬ ∀ (lib : Libraries) env clock token trustedKeys now, (∃ keyring, selectedKeyring lib env trustedKeys = .ok keyring) →
      (∃ payload, verifyDocumentCapability lib env clock token trustedKeys now = .ok payload) ∨
        ∃ e, verifyDocumentCapability lib env clock token trustedKeys now = .error e ∧ e.IsRefusal := by
  intro h
  obtain ⟨keyring, -, hkeyring, -⟩ := long_trusts 0
  exact accented_breaks.not_refuses (refuses_iff.mpr
    (h (longLibraries 0) documents 0 accented (some currentKeys) none ⟨keyring, hkeyring⟩))

end XgenSdk.DocumentCapability
