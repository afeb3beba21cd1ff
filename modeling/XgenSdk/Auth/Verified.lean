import Mathlib.Data.List.TakeWhile
import XgenSdk.Auth.Keyrings

/-! What identity headers stand for once they are verified. -/
namespace XgenSdk.Principal
open XgenSdk.Py
open XgenSdk.Checks (ok_bind bind_ok)

/-! The headers of a scope. -/

/-- The value of an entry whose name, in lower case, is `name`. -/
def HeaderEntry.named (name : String) : HeaderEntry → Option Bytes
  | .pair rawName rawValue => if (asciiText rawName).map lower = some name.toList then some rawValue else none
  | .other => none

def valuesOf (name : String) (headers : List HeaderEntry) : List Bytes := headers.filterMap (HeaderEntry.named name)

def latin1 (raw : Bytes) : String := String.ofList (latin1Text raw)

/-- The values found under a name. -/
def under (name : String) (found : List (String × String)) : List String :=
  (found.filter fun f => f.1 = name).map Prod.snd

/-- What the loop over the headers has found once it has `seen` some. -/
structure Found (seen : List HeaderEntry) (found : RawHeaders) : Prop where
  identity : ∀ name ∈ identityHeaders, (valuesOf name seen).map latin1 = under name found.identity
  single : (found.identity.map Prod.fst).Nodup
  names : ∀ f ∈ found.identity, f.1 ∈ identityHeaders
  proof : (valuesOf proofHeader seen).map latin1 = found.proof.toList
  relevant : found.relevant = false → ∀ name ∈ proofHeader :: identityHeaders, valuesOf name seen = []

theorem found_nil : Found [] ⟨[], none, false⟩ where
  identity := fun _ _ => rfl
  single := List.nodup_nil
  names := fun f hf => by cases hf
  proof := rfl
  relevant := fun _ _ _ => rfl

theorem valuesOf_append (name : String) (seen : List HeaderEntry) (entry : HeaderEntry) :
    valuesOf name (seen ++ [entry]) = valuesOf name seen ++ (entry.named name).toList := by
  rw [valuesOf, List.filterMap_append]
  cases h : entry.named name <;> simp [h, valuesOf]

theorem named_of {rawName : Bytes} (rawValue : Bytes) {text : List Char} (htext : asciiText rawName = some text) (name : String) :
    (HeaderEntry.pair rawName rawValue).named name = if String.ofList (lower text) = name then some rawValue else none := by
  have hiff : (asciiText rawName).map lower = some name.toList ↔ String.ofList (lower text) = name := by
    rw [htext, Option.map_some]
    constructor
    · intro h
      rw [Option.some.inj h, String.ofList_toList]
    · rintro rfl
      rw [String.toList_ofList]
  rw [HeaderEntry.named]
  by_cases h : String.ofList (lower text) = name
  · rw [if_pos h, if_pos (hiff.mpr h)]
  · rw [if_neg h, if_neg fun hmap => h (hiff.mp hmap)]

theorem proofHeader_notMem : proofHeader ∉ identityHeaders := by decide

theorem under_append (name : String) (found : List (String × String)) (entry : String × String) :
    under name (found ++ [entry]) = under name found ++ if entry.1 = name then [entry.2] else [] := by
  rw [under, List.filter_append, List.map_append]
  by_cases h : entry.1 = name <;> simp [h, under]

theorem safeHeaderValue_ok {value : Json} {text : String} (h : safeHeaderValue value = .ok text) : value = .str text := by
  unfold safeHeaderValue at h
  split at h
  · split at h
    · cases h
    · rw [Except.ok.inj h]
  · cases h

section Entry
variable {seen : List HeaderEntry} {found : RawHeaders} {entry : HeaderEntry} {name : String} {rawValue : Bytes}

/-- One more identity header, of a name not yet found. -/
theorem Found.addIdentity (h : Found seen found)
    (hnamed : ∀ n, entry.named n = if name = n then some rawValue else none) (hname : name ∈ identityHeaders)
    (hfresh : (found.identity.any fun f => f.1 = name) = false) :
    Found (seen ++ [entry]) { found with
      identity := found.identity ++ [(name, latin1 rawValue)], relevant := true } where
  identity := by
    intro n hn
    rw [valuesOf_append, hnamed, List.map_append, h.identity n hn, under_append]
    by_cases heq : name = n <;> simp [heq]
  single := by
    rw [List.map_append, List.nodup_append]
    refine ⟨h.single, by simp, ?_⟩
    intro a ha b hb
    obtain rfl := List.mem_singleton.mp hb
    obtain ⟨f, hf, rfl⟩ := List.mem_map.mp ha
    simpa using List.any_eq_false.mp hfresh f hf
  names := by
    intro f hf
    obtain hf | hf := List.mem_append.mp hf
    · exact h.names f hf
    · rw [List.mem_singleton.mp hf]
      exact hname
  proof := by
    have hother : name ≠ proofHeader := fun heq => proofHeader_notMem (heq ▸ hname)
    rw [valuesOf_append, hnamed, if_neg hother, ← h.proof]
    simp
  relevant := fun hrelevant => by cases hrelevant

/-- The proof, where none was found yet. -/
theorem Found.addProof (h : Found seen found)
    (hnamed : ∀ n, entry.named n = if proofHeader = n then some rawValue else none)
    (hfresh : found.proof.isSome = false) :
    Found (seen ++ [entry]) { found with proof := some (latin1 rawValue), relevant := true } where
  identity := by
    intro n hn
    have hother : proofHeader ≠ n := fun heq => proofHeader_notMem (heq ▸ hn)
    rw [valuesOf_append, hnamed, if_neg hother, ← h.identity n hn]
    simp
  single := h.single
  names := h.names
  proof := by
    have hnone : found.proof = none := by simpa using hfresh
    rw [valuesOf_append, hnamed, if_pos rfl, List.map_append, h.proof, hnone]
    rfl
  relevant := fun hrelevant => by cases hrelevant

/-- A header of another name. -/
theorem Found.skip (h : Found seen found)
    (hnamed : ∀ n, entry.named n = if name = n then some rawValue else none) (hname : name ∉ proofHeader :: identityHeaders) :
    Found (seen ++ [entry]) found := by
  have hsame : ∀ n ∈ proofHeader :: identityHeaders, valuesOf n (seen ++ [entry]) = valuesOf n seen := by
    intro n hn
    have hother : name ≠ n := fun heq => hname (heq ▸ hn)
    rw [valuesOf_append, hnamed, if_neg hother]
    simp
  refine ⟨fun n hn => ?_, h.single, h.names, ?_, fun hrelevant n hn => ?_⟩
  · rw [hsame n (List.mem_cons_of_mem _ hn)]
    exact h.identity n hn
  · rw [hsame _ List.mem_cons_self]
    exact h.proof
  · rw [hsame n hn]
    exact h.relevant hrelevant n hn

end Entry

theorem asciiText_latin1 {raw : Bytes} {text : List Char} (h : asciiText raw = some text) : String.ofList text = latin1 raw := by
  unfold asciiText at h
  split at h
  · rw [← Option.some.inj h, latin1]
  · cases h

/-- The loop finds what it is to find. -/
theorem rawLoop_found {seen headers : List HeaderEntry} {found result : RawHeaders} (hfound : Found seen found)
    (h : rawLoop found headers = .ok result) : Found (seen ++ headers) result := by
  induction headers generalizing seen found with
  | nil =>
    rw [← Except.ok.inj h, List.append_nil]
    exact hfound
  | cons entry headers ih =>
    rw [← List.singleton_append, ← List.append_assoc]
    cases entry with
    | other => cases h
    | pair rawName rawValue =>
      rw [rawLoop] at h
      split at h
      · cases h
      · rename_i text htext
        have hnamed := named_of rawValue htext
        obtain ⟨-, h⟩ := refuse_bind h
        dsimp only at h
        generalize String.ofList (lower text) = name at h hnamed
        split at h
        · rename_i hidentity
          obtain ⟨hfresh, h⟩ := refuse_bind h
          obtain ⟨value, hvalue, h⟩ := bind_ok h
          rw [← Json.str.inj (safeHeaderValue_ok hvalue)] at h
          exact ih (hfound.addIdentity hnamed (List.contains_iff_mem.mp hidentity) hfresh) h
        · rename_i hidentity
          split at h
          · rename_i hproof
            obtain ⟨hfresh, h⟩ := refuse_bind h
            split at h
            · cases h
            · rename_i proof hascii
              rw [asciiText_latin1 hascii] at h
              subst hproof
              exact ih (hfound.addProof hnamed hfresh) h
          · rename_i hproof
            refine ih (hfound.skip hnamed ?_) h
            rw [List.mem_cons, not_or]
            exact ⟨hproof, fun hmem => hidentity (List.contains_iff_mem.mpr hmem)⟩

/-! The canonical headers. -/

/-- The values given under a name, in whatever case it is spelled. -/
def claimed (name : String) (fields : Fields) : List Json :=
  (fields.filter fun f => lower f.1.toList = name.toList).map Prod.snd

/-- What the loop over the given headers has made of those `seen`. -/
structure Canonical (seen : Fields) (canonical : List (String × String)) : Prop where
  values : ∀ name ∈ identityHeaders, claimed name seen = (under name canonical).map Json.str
  single : (canonical.map Prod.fst).Nodup

theorem canonical_nil : Canonical [] [] := ⟨fun _ _ => rfl, List.nodup_nil⟩

theorem Canonical.add {seen : Fields} {canonical : List (String × String)} (h : Canonical seen canonical)
    {rawName value : String} (hfresh : (canonical.any fun f => f.1 = String.ofList (lower rawName.toList)) = false) :
    Canonical (seen ++ [(rawName, .str value)]) (canonical ++ [(String.ofList (lower rawName.toList), value)]) where
  values := by
    intro n hn
    have hiff : lower rawName.toList = n.toList ↔ String.ofList (lower rawName.toList) = n := by
      constructor
      · intro heq
        rw [heq, String.ofList_toList]
      · rintro rfl
        rw [String.toList_ofList]
    rw [claimed, List.filter_append, List.map_append, ← claimed, h.values n hn, under_append, List.map_append]
    by_cases heq : String.ofList (lower rawName.toList) = n
    · rw [if_pos heq, List.filter_cons_of_pos (by simpa using hiff.mpr heq)]
      rfl
    · rw [if_neg heq, List.filter_cons_of_neg (by simpa using fun hl => heq (hiff.mp hl))]
      rfl
  single := by
    rw [List.map_append, List.nodup_append]
    refine ⟨h.single, by simp, ?_⟩
    intro a ha b hb
    obtain rfl := List.mem_singleton.mp hb
    obtain ⟨f, hf, rfl⟩ := List.mem_map.mp ha
    simpa using List.any_eq_false.mp hfresh f hf

theorem canonicalLoop_ok {seen headers : Fields} {canonical result : List (String × String)}
    (hseen : Canonical seen canonical) (h : canonicalLoop canonical headers = .ok result) :
    Canonical (seen ++ headers) result := by
  induction headers generalizing seen canonical with
  | nil =>
    rw [← Except.ok.inj h, List.append_nil]
    exact hseen
  | cons f headers ih =>
    obtain ⟨rawName, rawValue⟩ := f
    rw [canonicalLoop] at h
    obtain ⟨-, h⟩ := refuse_bind h
    obtain ⟨-, h⟩ := refuse_bind h
    obtain ⟨hfresh, h⟩ := refuse_bind h
    obtain ⟨value, hvalue, h⟩ := bind_ok h
    rw [← List.singleton_append, ← List.append_assoc, safeHeaderValue_ok hvalue]
    exact ih (hseen.add hfresh) h

/-- Under a name found once there is the one value that is looked up. -/
theorem under_of_mem {name : String} {found : List (String × String)} (hsingle : (found.map Prod.fst).Nodup)
    (hmem : ∃ f ∈ found, f.1 = name) : under name found = [valueOf found name] := by
  induction found with
  | nil =>
    obtain ⟨f, hf, -⟩ := hmem
    cases hf
  | cons f found ih =>
    obtain ⟨key, value⟩ := f
    rw [List.map_cons, List.nodup_cons] at hsingle
    by_cases heq : key = name
    · subst heq
      have hrest : under key found = [] := by
        rw [under, List.map_eq_nil_iff, List.filter_eq_nil_iff]
        intro g hg hsame
        exact hsingle.1 (List.mem_map.mpr ⟨g, hg, of_decide_eq_true hsame⟩)
      have hcons : under key ((key, value) :: found) = value :: under key found := by simp [under]
      rw [hcons, hrest, valueOf]
      simp
    · have hcons : under name ((key, value) :: found) = under name found := by simp [under, heq]
      have hvalue : valueOf ((key, value) :: found) name = valueOf found name := by
        rw [valueOf, valueOf, List.lookup_cons, beq_eq_false_iff_ne.mpr (Ne.symm heq)]
      rw [hcons, hvalue]
      refine ih hsingle.2 ?_
      obtain ⟨g, hg, hname⟩ := hmem
      obtain rfl | hg := List.mem_cons.mp hg
      · exact absurd hname heq
      · exact ⟨g, hg, hname⟩

theorem valueOf_map (value : String → String) {name : String} {names : List String} (h : name ∈ names) :
    valueOf (names.map fun n => (n, value n)) name = value name := by
  induction names with
  | nil => cases h
  | cons n names ih =>
    rw [List.map_cons, valueOf, List.lookup_cons]
    by_cases heq : name = n
    · rw [heq, beq_self_eq_true]
      rfl
    · rw [beq_eq_false_iff_ne.mpr heq]
      exact ih ((List.mem_cons.mp h).resolve_left heq)

/-- Canonical headers have one value for each identity header. -/
theorem canonicalIdentityHeaders_ok {headers : Fields} {result : List (String × String)}
    (h : canonicalIdentityHeaders headers false = .ok result) :
    result.map Prod.fst = identityHeaders ∧
      ∀ name ∈ identityHeaders, claimed name headers = [.str (valueOf result name)] := by
  unfold canonicalIdentityHeaders at h
  obtain ⟨canonical, hcanonical, h⟩ := bind_ok h
  simp only [Bool.false_eq_true, if_false] at h
  obtain ⟨hall, h⟩ := refuse_bind h
  obtain ⟨-, h⟩ := refuse_bind h
  obtain ⟨-, h⟩ := refuse_bind h
  have hdone := canonicalLoop_ok canonical_nil hcanonical
  rw [← Except.ok.inj h]
  constructor
  · rw [List.map_map]
    rfl
  · intro name hname
    have hin : ∃ f ∈ canonical, f.1 = name := by
      have hpresent : ∀ n ∈ identityHeaders, ∃ value, (n, value) ∈ canonical := by simpa using hall
      obtain ⟨value, hvalue⟩ := hpresent name hname
      exact ⟨(name, value), hvalue, rfl⟩
    rw [valueOf_map _ hname, ← List.nil_append headers, hdone.values name hname, under_of_mem hdone.single hin]
    rfl

/-- The names found in a scope are in lower case. -/
theorem claimed_lower {found : List (String × String)} (hnames : ∀ f ∈ found, f.1 ∈ identityHeaders) (name : String) :
    claimed name (found.map fun f => (f.1, .str f.2)) = (under name found).map Json.str := by
  have hlower : ∀ n ∈ identityHeaders, lower n.toList = n.toList := by decide
  rw [claimed, under, List.filter_map, List.map_map, List.map_map]
  have hfilter : found.filter ((fun f => decide (lower f.1.toList = name.toList)) ∘ fun f => (f.1, Json.str f.2)) =
      found.filter fun f => f.1 = name := by
    refine List.filter_congr fun f hf => ?_
    simp only [Function.comp_apply, hlower _ (hnames f hf), String.toList_inj]
  rw [hfilter]
  rfl

/-! Permissions. -/

theorem stripChars_nil {text : List Char} (h : stripChars text = []) : ∀ c ∈ text, isSpace c = true := by
  have hback := List.dropWhile_eq_nil_iff.mp (List.reverse_eq_nil_iff.mp h)
  have hrest : text.dropWhile isSpace = [] := by
    cases hd : text.dropWhile isSpace with
    | nil => rfl
    | cons c rest =>
      have hspace : isSpace c = true := hback c (by rw [hd]; simp)
      have hhead := List.head?_dropWhile_not isSpace text
      rw [hd, List.head?_cons] at hhead
      dsimp only at hhead
      rw [hspace] at hhead
      cases hhead
  exact List.dropWhile_eq_nil_iff.mp hrest

/-- Both splitters of the permission header take the same items. -/
theorem parseCommaList_eq (value : String) : parseCommaList value = splitPermissions value := by
  have hsplit : splitPermissions value =
      ((value.toList.splitOn ',').filter fun item => stripChars item ≠ []).map fun item => unquote (stripChars item) := by
    rw [splitPermissions, List.filter_map, List.map_map]
    rfl
  rw [parseCommaList, hsplit]
  split
  · rename_i hempty
    have hstrip : stripChars value.toList = [] := by
      obtain rfl | hstrip := (by simpa using hempty : value = "" ∨ stripChars value.toList = [])
      · rfl
      · exact hstrip
    have hcomma : ',' ∉ value.toList := fun hmem => absurd (stripChars_nil hstrip ',' hmem) (by decide)
    rw [List.splitOn_eq_singleton hcomma]
    simp [hstrip]
  · rfl

theorem checkService_ok {permissions : List String} {claims : List (String × String)} {u : Unit}
    (h : checkService permissions claims = .ok u) :
    lower (valueOf claims "x-user-superuser").toList = "false".toList ∧
      ∀ p ∈ splitPermissions (valueOf claims "x-user-permissions"), '*' ∉ p ∧ String.ofList p ∈ permissions := by
  unfold checkService at h
  obtain ⟨hsuper, h⟩ := refuse_bind h
  have hgrants := refuse_ok h
  rw [Bool.or_eq_false_iff] at hgrants
  refine ⟨not_not.mp (of_decide_eq_false hsuper), fun p hp => ⟨?_, ?_⟩⟩
  · simpa using List.any_eq_false.mp hgrants.1 p hp
  · have hall : ∀ q ∈ splitPermissions (valueOf claims "x-user-permissions"), String.ofList q ∈ permissions := by
      simpa using hgrants.2
    exact hall p hp

/-! Assertions. -/

/-- What a proof says, and who vouches for it. -/
structure Assertion (κ : Type) where
  head : List Char
  body : List Char
  signature : List Char
  header : Fields
  payload : Fields
  type : String
  issuer : String
  signer : Issuer κ
  iat : Int
  exp : Int
  headers : Fields

variable {κ : Type} (lib : Libraries κ) (env : Environment)

/-- The assertion is the one `proof` spells: signed under a configured key of the issuer it claims, for
this service, within its lifetime, and it says what `result` says. -/
structure Assertion.Holds (signed : SigningKey κ → List Char → Prop) (proof : String) (now : Int)
    (result : List (String × String)) (a : Assertion κ) : Prop where
  proof : proof.toList = a.head ++ '.' :: (a.body ++ '.' :: a.signature)
  header : decodeJsonSegment lib a.head = .ok a.header
  payload : decodeJsonSegment lib a.body = .ok a.payload
  type : Json.lookup "type" a.payload = some (.str a.type)
  issuer : Json.lookup "iss" a.payload = some (.str a.issuer)
  vouched : Vouched lib env a.header a.type a.issuer a.signer
  signed : signed a.signer.key (a.head ++ '.' :: a.body)
  audience : ∃ name, env.serviceName = some name ∧ Json.lookup "aud" a.payload = some (.str name)
  iat : Json.lookup "iat" a.payload = some (.int a.iat)
  exp : Json.lookup "exp" a.payload = some (.int a.exp)
  lifetime : a.iat ≤ now ∧ now < a.exp ∧ a.exp ≤ a.iat + 60
  cutoff : ∀ c, a.signer.cutoff = some c → a.exp ≤ c
  headers : Json.lookup "headers" a.payload = some (.obj a.headers)
  bound : ∀ name ∈ identityHeaders, claimed name a.headers = [.str (valueOf result name)]
  service : a.type = "service" → lower (valueOf result "x-user-superuser").toList = "false".toList ∧
    ∀ p ∈ parseCommaList (valueOf result "x-user-permissions"), '*' ∉ p ∧
      ∃ permissions, a.signer.permissions = some permissions ∧ String.ofList p ∈ permissions

variable {lib env}

theorem serviceName_ok {value : Option String} {source name : String} (h : serviceName value source = .ok name) :
    value = some name := by
  unfold serviceName at h
  split at h
  · split at h
    · cases h
    · rw [Except.ok.inj h]
  · cases h

theorem checkLifetime_ok {payload : Fields} {cutoff : Option Int} {now : Int} {u : Unit}
    (h : checkLifetime payload cutoff now = .ok u) :
    ∃ iat exp, Json.lookup "iat" payload = some (.int iat) ∧ Json.lookup "exp" payload = some (.int exp) ∧
      (iat ≤ now ∧ now < exp ∧ exp ≤ iat + 60) ∧ ∀ c, cutoff = some c → exp ≤ c := by
  unfold checkLifetime at h
  split at h
  · rename_i iat exp hiat hexp
    split at h
    · cases h
    · rename_i hlife
      split at h
      · cases h
      · rename_i hcutoff
        refine ⟨iat, exp, hiat, hexp, by omega, ?_⟩
        rintro c rfl
        simpa using hcutoff
  · cases h

theorem verifyAssertion_ok {signed : SigningKey κ → List Char → Prop}
    (hideal : ∀ key text signature, verifies lib key text signature = true → signed key text) {proof : String}
    {actual result : List (String × String)} {now : Int} {payload : Fields}
    (h : verifyAssertion lib env proof actual now = .ok payload)
    (hresult : canonicalIdentityHeaders (actual.map fun f => (f.1, .str f.2)) false = .ok result) :
    ∃ a : Assertion κ, a.Holds lib env signed proof now result := by
  unfold verifyAssertion at h
  obtain ⟨-, h⟩ := refuse_bind h
  split at h
  · rename_i head body signature hparts
    obtain ⟨-, h⟩ := refuse_bind h
    obtain ⟨header, hheader, h⟩ := bind_ok h
    obtain ⟨payload', hpayload, h⟩ := bind_ok h
    obtain ⟨-, h⟩ := refuse_bind h
    obtain ⟨issuer, hissuer, h⟩ := bind_ok h
    obtain ⟨raw, hraw, h⟩ := bind_ok h
    obtain ⟨hverify, h⟩ := refuse_bind h
    obtain ⟨audience, haudience, h⟩ := bind_ok h
    obtain ⟨haud, h⟩ := refuse_bind h
    obtain ⟨u, hlife, h⟩ := bind_ok h
    obtain ⟨type, name, htype, hname, hvouched⟩ := selectIssuer_ok hissuer
    obtain ⟨iat, exp, hiat, hexp, hlifetime, hcutoff⟩ := checkLifetime_ok hlife
    split at h
    · rename_i headers hheaders
      obtain ⟨canonical, hcanonical, h⟩ := bind_ok h
      obtain ⟨canonical', hcanonical', h⟩ := bind_ok h
      obtain ⟨hdiffer, h⟩ := refuse_bind h
      obtain ⟨v, hservice, -⟩ := bind_ok h
      have hsame : canonical = result := by
        rw [hresult] at hcanonical'
        rw [not_not.mp (of_decide_eq_false hdiffer), Except.ok.inj hcanonical']
      rw [hsame] at hcanonical hservice
      refine ⟨⟨head, body, signature, header, payload', type, name, issuer, iat, exp, headers⟩, ?_, hheader, hpayload,
        htype, hname, hvouched, hideal _ _ raw (by simpa using hverify),
        ⟨audience, serviceName_ok haudience, isText_iff.mp (by simpa using haud)⟩, hiat, hexp, hlifetime, hcutoff,
        hheaders, (canonicalIdentityHeaders_ok hcanonical).2, ?_⟩
      · have hjoin : ['.'].intercalate (proof.toList.splitOn '.') = proof.toList := List.intercalate_splitOn '.'
        rw [hparts] at hjoin
        rw [← hjoin]
        simp [List.intercalate]
      · intro hkind
        dsimp only at hkind
        cases hvouched with
        | gateway _ => exact absurd hkind (by decide)
        | service hraw hloads hentry hkey hpermissions =>
          obtain ⟨hsuper, hgrants⟩ := checkService_ok hservice
          refine ⟨hsuper, fun p hp => ?_⟩
          rw [parseCommaList_eq] at hp
          exact ⟨(hgrants p hp).1, _, rfl, (hgrants p hp).2⟩
    · cases h
  · cases h

/-! Requests. -/

/-- The identity a request was given is what one proof of it says. -/
structure Verified (lib : Libraries κ) (env : Environment) (signed : SigningKey κ → List Char → Prop)
    (headers : List HeaderEntry) (now : Int) (result : List (String × String)) : Prop where
  names : result.map Prod.fst = identityHeaders
  once : ∀ name ∈ identityHeaders, ∃ raw, valuesOf name headers = [raw] ∧ valueOf result name = latin1 raw
  proven : ∃ raw, valuesOf proofHeader headers = [raw] ∧
    ∃ a : Assertion κ, a.Holds lib env signed (latin1 raw) now result

/-- What a call that returns has found. -/
theorem verifiedIdentityHeaders_ok {headers : List HeaderEntry} {now : Int} {outcome : Option (List (String × String))}
    (h : verifiedIdentityHeaders lib env headers now = .ok outcome) :
    ∃ found, Found headers found ∧
      (found.relevant = false ∧ outcome = none ∨
        ∃ proof payload result, outcome = some result ∧ found.proof = some proof ∧
          verifyAssertion lib env proof found.identity now = .ok payload ∧
          canonicalIdentityHeaders (found.identity.map fun f => (f.1, .str f.2)) false = .ok result) := by
  unfold verifiedIdentityHeaders at h
  obtain ⟨raw, hraw, h⟩ := bind_ok h
  unfold rawPrincipalHeaders at hraw
  obtain ⟨found, hloop, hraw⟩ := bind_ok hraw
  have hraw := Except.ok.inj hraw
  refine ⟨found, rawLoop_found found_nil hloop, ?_⟩
  split at hraw
  · rw [← hraw] at h
    cases hproof : found.proof with
    | none =>
      rw [hproof] at h
      cases h
    | some proof =>
      rw [hproof] at h
      obtain ⟨payload, hpayload, h⟩ := bind_ok h
      obtain ⟨result, hresult, h⟩ := bind_ok h
      exact .inr ⟨proof, payload, result, (Except.ok.inj h).symm, rfl, hpayload, hresult⟩
  · rename_i hrelevant
    rw [← hraw] at h
    exact .inl ⟨by simpa using hrelevant, (Except.ok.inj h).symm⟩

theorem verified_of_ok {signed : SigningKey κ → List Char → Prop}
    (hideal : ∀ key text signature, verifies lib key text signature = true → signed key text)
    {headers : List HeaderEntry} {now : Int} {result : List (String × String)}
    (h : verifiedIdentityHeaders lib env headers now = .ok (some result)) :
    Verified lib env signed headers now result := by
  obtain ⟨found, hfound, ⟨-, hnone⟩ | ⟨proof, payload, result', hsome, hproof, hpayload, hresult⟩⟩ :=
    verifiedIdentityHeaders_ok h
  · cases hnone
  · obtain rfl := Option.some.inj hsome
    obtain ⟨hnames, hvalues⟩ := canonicalIdentityHeaders_ok hresult
    refine ⟨hnames, fun name hname => ?_, ?_⟩
    · have hone := hvalues name hname
      rw [claimed_lower hfound.names, ← hfound.identity name hname] at hone
      obtain ⟨text, htext, heq⟩ := List.map_eq_singleton_iff.mp hone
      obtain ⟨raw, hraw, hlatin⟩ := List.map_eq_singleton_iff.mp htext
      exact ⟨raw, hraw, by rw [hlatin, Json.str.inj heq]⟩
    · have hone := hfound.proof
      rw [hproof] at hone
      obtain ⟨raw, hraw, heq⟩ := List.map_eq_singleton_iff.mp hone
      refine ⟨raw, hraw, ?_⟩
      rw [heq]
      exact verifyAssertion_ok hideal hpayload hresult

/-- An identity that is returned is verified, and none is returned only where the request names none. -/
theorem verifiedIdentityHeaders_sound {signed : SigningKey κ → List Char → Prop}
    (hideal : ∀ key text signature, verifies lib key text signature = true → signed key text)
    (headers : List HeaderEntry) (now : Int) :
    (∀ result, verifiedIdentityHeaders lib env headers now = .ok (some result) →
      Verified lib env signed headers now result) ∧
    (verifiedIdentityHeaders lib env headers now = .ok none →
      ∀ name ∈ proofHeader :: identityHeaders, valuesOf name headers = []) := by
  refine ⟨fun result h => verified_of_ok hideal h, fun h => ?_⟩
  obtain ⟨found, hfound, ⟨hrelevant, -⟩ | ⟨proof, payload, result, hsome, -⟩⟩ := verifiedIdentityHeaders_ok h
  · exact hfound.relevant hrelevant
  · cases hsome

/-! A service that passes a user on. -/

section Delegation

def headerText : List Char := "\x7b\"alg\":\"HS256\",\"typ\":\"JWT\"\x7d".toList

def trustedText : String :=
  "\x7b\"agents\":\x7b\"key\":\"kkkkkkkkkkkkkkkkkkkkkkkkkkkkkkkk\",\"permissions\":[\"file:read\"]\x7d\x7d"

def delegatedHeaders (superuser : String) : List (String × String) :=
  [("x-user-id", "7"), ("x-user-name", "kim"), ("x-user-superuser", superuser), ("x-user-roles", ""),
    ("x-user-permissions", "file:read"), ("x-user-supervision-full", "")]

def payloadText (superuser : String) : List Char :=
  "\x7b\"aud\":\"files\",\"exp\":1060,\"headers\":\x7b\"x-user-id\":\"7\",".toList ++
  "\"x-user-name\":\"kim\",\"x-user-permissions\":\"file:read\",".toList ++
  "\"x-user-roles\":\"\",\"x-user-superuser\":\"".toList ++ superuser.toList ++
  "\",\"x-user-supervision-full\":\"\"\x7d,\"iat\":1000,".toList ++
  "\"iss\":\"agents\",\"type\":\"service\"\x7d".toList

def payloadFields (superuser : String) : Fields :=
  [("aud", .str "files"), ("exp", .int 1060),
    ("headers", .obj ((delegatedHeaders superuser).map fun f => (f.1, .str f.2))), ("iat", .int 1000),
    ("iss", .str "agents"), ("type", .str "service")]

/-- What the service signs. -/
def signingInput (superuser : String) : List Char :=
  b64urlEncode (asciiBytes headerText) ++ '.' :: b64urlEncode (asciiBytes (payloadText superuser))

/-- The HMAC-SHA256 of the two assertions the service has signed. -/
def tag (superuser : String) : Bytes :=
  if superuser = "false" then
    [43, 95, 240, 190, 149, 138, 102, 49, 15, 14, 66, 222, 193, 192, 184, 248, 83, 170, 45, 181, 135, 254, 216, 211,
      184, 107, 7, 47, 62, 173, 232, 41]
  else
    [231, 36, 65, 49, 33, 151, 200, 211, 78, 2, 235, 153, 122, 72, 171, 249, 118, 31, 121, 172, 159, 112, 181, 215,
      98, 61, 148, 108, 31, 243, 214, 182]

def tags : List (List Char × Bytes) := [(signingInput "false", tag "false"), (signingInput "FALSE", tag "FALSE")]

def sharedKey : Bytes := utf8Bytes "kkkkkkkkkkkkkkkkkkkkkkkkkkkkkkkk".toList

def delegationLibraries : Libraries Unit where
  parseJson := fun text =>
    if text = headerText then some (.obj [("alg", .str "HS256"), ("typ", .str "JWT")])
    else if text = trustedText.toList then
      some (.obj [("agents", .obj [("key", .str "kkkkkkkkkkkkkkkkkkkkkkkkkkkkkkkk"),
        ("permissions", .arr [.str "file:read"])])])
    else if text = payloadText "false" then some (.obj (payloadFields "false"))
    else if text = payloadText "FALSE" then some (.obj (payloadFields "FALSE"))
    else none
  importKey := fun _ => none
  hasPrivate := fun _ => false
  sizeInBits := fun _ => 0
  rsaVerifies := fun _ _ _ => false
  hmacVerifies := fun key text signature => key = sharedKey && tags.contains (text, signature)

def delegationEnvironment : Environment := ⟨none, none, none, some "files", some trustedText⟩

def delegationSigned (key : SigningKey Unit) (text : List Char) : Prop :=
  ∃ tag, (text, tag) ∈ tags ∧ key = .service sharedKey

theorem delegation_ideal (key : SigningKey Unit) (text : List Char) (signature : Bytes)
    (h : verifies delegationLibraries key text signature = true) : delegationSigned key text := by
  cases key with
  | gateway _ => cases h
  | service key =>
    rw [verifies, delegationLibraries] at h
    dsimp only at h
    rw [Bool.and_eq_true] at h
    exact ⟨signature, List.contains_iff_mem.mp h.2, by rw [of_decide_eq_true h.1]⟩

def proofText (superuser : String) : List Char := signingInput superuser ++ '.' :: b64urlEncode (tag superuser)

def delegatedRequest (superuser : String) : List HeaderEntry :=
  ((delegatedHeaders superuser).map fun f => .pair (asciiBytes f.1.toList) (asciiBytes f.2.toList)) ++
    [.pair (asciiBytes "X-Xgen-Principal".toList) (asciiBytes (proofText superuser))]

theorem rawLoop_append (found : RawHeaders) (front back : List HeaderEntry) :
    rawLoop found (front ++ back) = rawLoop found front >>= fun f => rawLoop f back := by
  induction front generalizing found with
  | nil => rfl
  | cons entry front ih =>
    cases entry with
    | other => rfl
    | pair rawName rawValue =>
      rw [List.cons_append, rawLoop, rawLoop]
      split
      · rfl
      · simp only [bind_assoc]
        refine bind_congr fun _ => ?_
        split
        · simp only [bind_assoc, ih]
        · split
          · rw [bind_assoc]
            refine bind_congr fun _ => ?_
            split
            · rfl
            · exact ih _
          · exact ih _

theorem refuse_false (error : PrincipalError) : refuse false error = .ok () := rfl

theorem rawLoop_proof {found : RawHeaders} {rawName rawValue : Bytes} {name text : List Char}
    (hname : asciiText rawName = some name) (halias : isAlias (lower name) = false)
    (hlower : String.ofList (lower name) = proofHeader) (hnone : found.proof = none)
    (htext : asciiText rawValue = some text) :
    rawLoop found [.pair rawName rawValue] =
      .ok { found with proof := some (String.ofList text), relevant := true } := by
  have hother : identityHeaders.contains proofHeader = false := by decide
  rw [rawLoop, hname]
  simp only [halias, hlower, refuse_false, ok_bind, hother, hnone, htext, Option.isSome_none, Bool.false_eq_true,
    if_false, if_true]
  rfl

theorem decodeSegment_encode {raw : Bytes} (h : raw ≠ []) (message : String) :
    decodeSegment (b64urlEncode raw) message = .ok raw := by
  simp [decodeSegment, isBase64Url_encode h, b64urlDecode_encode]

theorem decodeJsonSegment_encode {κ : Type} {lib : Libraries κ} {text : List Char} {fields : Fields}
    (hascii : ∀ c ∈ text, c.toNat < 0x80) (hne : text ≠ []) (h : loads lib text = some (.obj fields)) :
    decodeJsonSegment lib (b64urlEncode (asciiBytes text)) = .ok fields := by
  have hraw : asciiBytes text ≠ [] := by simpa [asciiBytes] using hne
  have hread : (utf8Text (asciiBytes text)).bind (loads lib) = some (.obj fields) := by
    rw [utf8Text_asciiBytes hascii, Option.bind_some, h]
  rw [decodeJsonSegment, decodeSegment_encode hraw]
  simp only [bind, Except.bind, hread]

theorem ascii_of_all {text : List Char} (h : text.all (fun c => c.toNat < 0x80) = true) : ∀ c ∈ text, c.toNat < 0x80 := by
  simpa using h

theorem ascii_base64 {raw : Bytes} : ∀ c ∈ b64urlEncode raw, c.toNat < 0x80 ∧ c ≠ '.' := by
  have hdigits : ∀ n < 64, (base64UrlDigit n).toNat < 0x80 ∧ base64UrlDigit n ≠ '.' := by decide
  intro c hc
  obtain ⟨n, hn, rfl⟩ := mem_b64urlEncode hc
  exact hdigits n hn

theorem proofText_ascii (superuser : String) : ∀ c ∈ proofText superuser, c.toNat < 0x80 := by
  intro c hc
  simp only [proofText, signingInput, List.mem_append, List.mem_cons] at hc
  obtain (hc | rfl | hc) | rfl | hc := hc
  · exact (ascii_base64 c hc).1
  · decide
  · exact (ascii_base64 c hc).1
  · decide
  · exact (ascii_base64 c hc).1

theorem proofText_parts (superuser : String) : (proofText superuser).splitOn '.' =
    [b64urlEncode (asciiBytes headerText), b64urlEncode (asciiBytes (payloadText superuser)),
      b64urlEncode (tag superuser)] := by
  have hnone : ∀ raw, '.' ∉ b64urlEncode raw := fun raw hmem => (ascii_base64 _ hmem).2 rfl
  rw [proofText, signingInput, List.append_assoc, List.cons_append,
    List.splitOn_append_cons_self_of_not_mem (hnone _), List.splitOn_append_cons_self_of_not_mem (hnone _),
    List.splitOn_eq_singleton (hnone _)]

theorem delegated_header : decodeJsonSegment delegationLibraries (b64urlEncode (asciiBytes headerText)) =
    .ok [("alg", .str "HS256"), ("typ", .str "JWT")] := by
  refine decodeJsonSegment_encode (ascii_of_all (by decide)) (by decide) ?_
  rw [loads, delegationLibraries]
  dsimp only
  rw [if_pos rfl]
  rfl

section Accepted
variable {superuser : String} (hsu : superuser = "false" ∨ superuser = "FALSE")
include hsu

theorem payloadText_plain : (payloadText superuser).all (fun c => c.toNat < 0x80) = true ∧
    (payloadText superuser).length < 256 ∧ payloadText superuser ≠ headerText ∧
    payloadText superuser ≠ trustedText.toList := by
  obtain rfl | rfl := hsu <;> decide +kernel

theorem delegated_raw : rawPrincipalHeaders (delegatedRequest superuser) =
    .ok (some (delegatedHeaders superuser, some (String.ofList (proofText superuser)))) := by
  have hfront : rawLoop ⟨[], none, false⟩
      ((delegatedHeaders superuser).map fun f => .pair (asciiBytes f.1.toList) (asciiBytes f.2.toList)) =
      .ok ⟨delegatedHeaders superuser, none, true⟩ := by
    obtain rfl | rfl := hsu <;> decide
  have hname : asciiText (asciiBytes "X-Xgen-Principal".toList) = some "X-Xgen-Principal".toList := by decide
  have hlower : isAlias (lower "X-Xgen-Principal".toList) = false ∧
      String.ofList (lower "X-Xgen-Principal".toList) = proofHeader := by decide
  have hproof : asciiText (asciiBytes (proofText superuser)) = some (proofText superuser) :=
    asciiText_asciiBytes (proofText_ascii superuser)
  have hloop : rawLoop ⟨[], none, false⟩ (delegatedRequest superuser) =
      .ok ⟨delegatedHeaders superuser, some (String.ofList (proofText superuser)), true⟩ := by
    rw [delegatedRequest, rawLoop_append, hfront, ok_bind,
      rawLoop_proof hname hlower.1 hlower.2 rfl hproof]
  rw [rawPrincipalHeaders, hloop]
  rfl

theorem delegated_payload : decodeJsonSegment delegationLibraries (b64urlEncode (asciiBytes (payloadText superuser))) =
    .ok (payloadFields superuser) := by
  obtain ⟨hascii, -, hheader, htrusted⟩ := payloadText_plain hsu
  have hparse : delegationLibraries.parseJson (payloadText superuser) = some (.obj (payloadFields superuser)) := by
    rw [delegationLibraries]
    dsimp only
    rw [if_neg hheader, if_neg htrusted]
    obtain rfl | rfl := hsu
    · rw [if_pos rfl]
    · rw [if_neg (by decide +kernel), if_pos rfl]
  refine decodeJsonSegment_encode (ascii_of_all hascii) (fun hnil => ?_) ?_
  · rw [hnil] at hparse
    cases hparse
  · have hunique : uniqueMembers (.obj (payloadFields superuser)) = true := by
      obtain rfl | rfl := hsu <;> decide
    rw [loads, hparse, Option.filter_some, if_pos hunique]

theorem delegated_issuer : selectIssuer delegationLibraries delegationEnvironment
    [("alg", .str "HS256"), ("typ", .str "JWT")] (payloadFields superuser) =
    .ok ⟨.service sharedKey, none, some ["file:read"]⟩ := by
  obtain rfl | rfl := hsu <;> decide

theorem delegated_canonical :
    canonicalIdentityHeaders ((delegatedHeaders superuser).map fun f => (f.1, .str f.2)) false =
      .ok (delegatedHeaders superuser) := by
  obtain rfl | rfl := hsu <;> decide

theorem delegated_checks : hasKeys (payloadFields superuser) claimKeys = true ∧
    isText (Json.lookup "aud" (payloadFields superuser)) "files" = true ∧
    checkLifetime (payloadFields superuser) none 1030 = .ok () ∧
    checkService ["file:read"] (delegatedHeaders superuser) = .ok () ∧ tag superuser ≠ [] := by
  obtain rfl | rfl := hsu <;> decide

theorem delegated_signed : verifies delegationLibraries (.service sharedKey)
    (b64urlEncode (asciiBytes headerText) ++ '.' :: b64urlEncode (asciiBytes (payloadText superuser)))
    (tag superuser) = true := by
  have hmem : (signingInput superuser, tag superuser) ∈ tags := by
    obtain rfl | rfl := hsu
    · exact List.mem_cons_self
    · exact List.mem_cons_of_mem _ List.mem_cons_self
  rw [verifies, delegationLibraries, Bool.and_eq_true]
  exact ⟨decide_eq_true rfl, List.contains_iff_mem.mpr hmem⟩

theorem delegated_length : (proofText superuser).length ≤ maxAssertionBytes := by
  obtain ⟨-, hlen, -⟩ := payloadText_plain hsu
  have hheader : headerText.length = 27 := by decide
  have htag : (tag superuser).length = 32 := by
    obtain rfl | rfl := hsu <;> decide
  have h1 := length_b64urlEncode (asciiBytes headerText)
  have h2 := length_b64urlEncode (asciiBytes (payloadText superuser))
  have h3 := length_b64urlEncode (tag superuser)
  rw [asciiBytes, List.length_map] at h1 h2
  rw [proofText, signingInput, maxAssertionBytes]
  simp only [List.length_append, List.length_cons, asciiBytes] at h1 h2 ⊢
  omega

theorem delegated_verified : verifyAssertion delegationLibraries delegationEnvironment
    (String.ofList (proofText superuser)) (delegatedHeaders superuser) 1030 = .ok (payloadFields superuser) := by
  obtain ⟨hkeys, haud, hlife, hservice, htag⟩ := delegated_checks hsu
  have hlength := delegated_length hsu
  have hname : serviceName delegationEnvironment.serviceName serviceNameEnv = .ok "files" := by decide
  have hheaders : Json.lookup "headers" (payloadFields superuser) =
      some (.obj ((delegatedHeaders superuser).map fun f => (f.1, .str f.2))) := rfl
  have hlong : decide ((proofText superuser).length > maxAssertionBytes) = false := decide_eq_false (by omega)
  have hsegments : decide (b64urlEncode (asciiBytes headerText) = [] ∨
      b64urlEncode (asciiBytes (payloadText superuser)) = [] ∨ b64urlEncode (tag superuser) = []) = false := by
    refine decide_eq_false fun hnil => ?_
    obtain hnil | hnil | hnil := hnil
    · have h := delegated_header
      rw [hnil] at h
      cases h
    · have h := delegated_payload hsu
      rw [hnil] at h
      cases h
    · have h := decodeSegment_encode htag ""
      rw [hnil] at h
      cases h
  rw [verifyAssertion, String.toList_ofList, proofText_parts]
  simp only [hlong, hsegments, refuse_false, ok_bind, delegated_header, delegated_payload hsu, hkeys, Bool.not_true,
    delegated_issuer hsu, decodeSegment_encode htag, delegated_signed hsu, hname, haud, hlife, hheaders,
    delegated_canonical hsu, ne_eq, not_true_eq_false, decide_false, checkGrants, hservice]
  rfl

theorem delegated_accepted : verifiedIdentityHeaders delegationLibraries delegationEnvironment
    (delegatedRequest superuser) 1030 = .ok (some (delegatedHeaders superuser)) := by
  rw [verifiedIdentityHeaders, delegated_raw hsu, ok_bind]
  dsimp only
  rw [delegated_verified hsu, ok_bind, delegated_canonical hsu]
  rfl

end Accepted

theorem verifiedIdentityHeaders_sound_delegated :
    verifiedIdentityHeaders delegationLibraries delegationEnvironment (delegatedRequest "false") 1030 =
        .ok (some (delegatedHeaders "false")) ∧
      Verified delegationLibraries delegationEnvironment delegationSigned (delegatedRequest "false") 1030
        (delegatedHeaders "false") :=
  ⟨delegated_accepted (.inl rfl),
    (verifiedIdentityHeaders_sound delegation_ideal (delegatedRequest "false") 1030).1 _ (delegated_accepted (.inl rfl))⟩

/-- Without gateway keys, only services are vouched for. -/
theorem delegation_service {signed : SigningKey Unit → List Char → Prop} {proof : String} {now : Int}
    {result : List (String × String)} {a : Assertion Unit}
    (h : a.Holds delegationLibraries delegationEnvironment signed proof now result) : a.type = "service" := by
  obtain ⟨head, body, signature, header, payload, type, issuer, signer, iat, exp, headers⟩ := a
  have hvouched : Vouched delegationLibraries delegationEnvironment header type issuer signer := h.vouched
  cases hvouched with
  | gateway hkey =>
    cases hkey with
    | single _ hpem _ => cases hpem
    | active hring _ _ _ _ _ _ => cases hring
    | retiring hring _ _ _ _ _ _ _ => cases hring
  | service _ _ _ _ _ => rfl

/-- A service may spell the superuser header in capitals. -/
theorem superuser_in_capitals :
    ¬ ∀ (lib : Libraries Unit) (env : Environment) (signed : SigningKey Unit → List Char → Prop)
      (headers : List HeaderEntry) (now : Int) (result : List (String × String)),
      (∀ key text signature, verifies lib key text signature = true → signed key text) →
      verifiedIdentityHeaders lib env headers now = .ok (some result) →
      ∀ (raw : Bytes) (a : Assertion Unit), valuesOf proofHeader headers = [raw] →
        a.Holds lib env signed (latin1 raw) now result → a.type = "service" →
        valueOf result "x-user-superuser" = "false" := by
  intro h
  have hok : verifiedIdentityHeaders delegationLibraries delegationEnvironment (delegatedRequest "FALSE") 1030 =
      .ok (some (delegatedHeaders "FALSE")) := delegated_accepted (.inr rfl)
  obtain ⟨raw, hraw, a, ha⟩ := (verified_of_ok delegation_ideal hok).proven
  have hvalue := h _ _ _ _ _ _ delegation_ideal hok raw a hraw ha (delegation_service ha)
  exact absurd hvalue (by decide)

end Delegation

end XgenSdk.Principal
