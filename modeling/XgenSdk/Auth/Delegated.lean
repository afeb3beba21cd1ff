import XgenSdk.Auth.Verified
import XgenSdk.Py.JsonText

/-! Signing the identity of a user for another service. -/
namespace XgenSdk.Principal
open XgenSdk.Py
open XgenSdk.Checks (ok_bind bind_ok)

def serviceSigningKeyEnv : String := "XGEN_SERVICE_SIGNING_KEY"
def serviceKeyIdEnv : String := "XGEN_SERVICE_KEY_ID"

/-- The environment variables of a service that signs. -/
structure IssuerEnvironment where
  serviceName : Option String
  signingKey : Option String
  keyId : Option String

/-- What a caller gives besides the headers. -/
structure SigningRequest where
  audience : String
  serviceName : Option String
  signingKey : Option String
  keyId : Option String
  ttlSeconds : Json
  now : Option Json

/-- What is signed, and with which key. -/
structure Issue where
  issuer : String
  audience : String
  key : Bytes
  keyId : Option String
  iat : Int
  exp : Int
  headers : List (String × String)

def selectedKeyId (value : Option String) : Checked (Option String) :=
  match value with
  | none => .ok none
  | some kid => some <$> keyId (some (.str kid)) serviceKeyIdEnv true

def checkedTtl (ttlSeconds : Json) : Checked Int :=
  match ttlSeconds with
  | .int ttl =>
    if 1 ≤ ttl ∧ ttl ≤ 60 then .ok ttl
    else .error (invalid "service assertion ttl_seconds must be between 1 and 60")
  | _ => .error (invalid "service assertion ttl_seconds must be between 1 and 60")

def checkedNow (now : Json) : Checked Int :=
  match now with
  | .int issuedAt => .ok issuedAt
  | _ => .error (invalid "now must be an integer Unix timestamp")

def asFields (headers : List (String × String)) : Fields := headers.map fun f => (f.1, .str f.2)

/-- The checks of `sign_principal_for_service`; `clock` is the time where none is given. -/
def checkedIssue (env : IssuerEnvironment) (clock : Int) (delegated : Fields) (r : SigningRequest) : Checked Issue := do
  let issuer ← serviceName (r.serviceName.or env.serviceName) serviceNameEnv
  let target ← serviceName (some r.audience) "audience"
  let key ← keyBytes ((r.signingKey.or env.signingKey).map .str) serviceSigningKeyEnv
  let kid ← selectedKeyId (r.keyId.or env.keyId)
  let ttl ← checkedTtl r.ttlSeconds
  let headers ← canonicalIdentityHeaders delegated true
  refuse (lower (valueOf headers "x-user-superuser").toList ≠ "false".toList)
    (invalid "service assertions cannot grant superuser")
  refuse ((splitPermissions (valueOf headers "x-user-permissions")).any fun p => p.contains '*')
    (invalid "service assertions require finite permissions")
  let issuedAt ← checkedNow (r.now.getD (.int clock))
  return ⟨issuer, target, key, kid, issuedAt, issuedAt + ttl, headers⟩

def Issue.header (i : Issue) : Fields :=
  [("alg", .str "HS256"), ("typ", .str "JWT")] ++ (i.keyId.map fun kid => ("kid", .str kid)).toList

def Issue.payload (i : Issue) : Fields :=
  [("iss", .str i.issuer), ("aud", .str i.audience), ("type", .str "service"), ("iat", .int i.iat), ("exp", .int i.exp),
    ("headers", .obj (asFields i.headers))]

/-- `_json_segment`. -/
def jsonSegment (fields : Fields) : List Char := b64urlEncode (asciiBytes (Json.dumps (.obj fields)))

def Issue.signingInput (i : Issue) : List Char := jsonSegment i.header ++ '.' :: jsonSegment i.payload

/-- The assertion, signed by `hmac.new(key, text, sha256).digest()`. -/
def Issue.proof (hmac : Bytes → List Char → Bytes) (i : Issue) : List Char :=
  i.signingInput ++ '.' :: b64urlEncode (hmac i.key i.signingInput)

/-- `sign_principal_for_service`. -/
def signPrincipalForService (hmac : Bytes → List Char → Bytes) (env : IssuerEnvironment) (clock : Int)
    (delegated : Fields) (r : SigningRequest) : Checked (List Char) :=
  (checkedIssue env clock delegated r).map fun i => i.proof hmac

/-- `_WIRE_HEADER_NAMES`. -/
def wireHeaderNames : List (String × String) :=
  [("x-user-id", "X-User-ID"), ("x-user-name", "X-User-Name"), ("x-user-superuser", "X-User-Superuser"),
    ("x-user-roles", "X-User-Roles"), ("x-user-permissions", "X-User-Permissions"),
    ("x-user-supervision-full", "X-User-Supervision-Full"), (proofHeader, "X-Xgen-Principal")]

def wireName (name : String) : String := (wireHeaderNames.lookup name).getD name

/-- `service_principal_headers`. -/
def servicePrincipalHeaders (hmac : Bytes → List Char → Bytes) (env : IssuerEnvironment) (clock : Int)
    (delegated : Fields) (r : SigningRequest) : Checked (List (String × String)) := do
  let identity ← canonicalIdentityHeaders delegated true
  let proof ← signPrincipalForService hmac env clock (asFields identity) r
  return identity.map (fun f => (wireName f.1, f.2)) ++ [(wireName proofHeader, String.ofList proof)]

/-! The size of an assertion. -/

def intLength (n : Int) : Nat := (toString n).toList.length

def base64Length (n : Nat) : Nat := (4 * n + 2) / 3

/-- Characters of the protected header: with a key id there are nine more around it. -/
def Issue.headerLength (i : Issue) : Nat := 27 + (i.keyId.map fun kid => 9 + Json.escapedLength kid).getD 0

/-- Characters of the payload: the names and the marks around the values, and the values. -/
def Issue.payloadLength (i : Issue) : Nat :=
  (i.headers.map fun f => Json.escapedLength f.1 + Json.escapedLength f.2 + 5).sum + Json.escapedLength i.issuer +
    Json.escapedLength i.audience + intLength i.iat + intLength i.exp + 68

/-- The characters of the assertion; 43 of them are the signature. -/
def Issue.length (i : Issue) : Nat := base64Length i.headerLength + base64Length i.payloadLength + 45

end XgenSdk.Principal

/-! What a service may sign is what its receiver verifies, as long as it is not
too long. -/
namespace XgenSdk.Principal
open XgenSdk.Py
open XgenSdk.Checks (ok_bind bind_ok)

/-! Canonical headers. -/

/-- Headers as `canonicalIdentityHeaders` returns them. -/
structure IsCanonical (headers : List (String × String)) : Prop where
  names : headers.map Prod.fst = identityHeaders
  safe : ∀ f ∈ headers, safeHeaderValue (.str f.2) = .ok f.2
  user : valueOf headers "x-user-id" ≠ "" ∧ valueOf headers "x-user-name" ≠ ""
  superuser : lower (valueOf headers "x-user-superuser").toList = "true".toList ∨
    lower (valueOf headers "x-user-superuser").toList = "false".toList

theorem identityHeaders_nodup : identityHeaders.Nodup := by decide

theorem identityHeaders_plain : ∀ n ∈ identityHeaders, lower n.toList = n.toList ∧ isAlias (lower n.toList) = false := by
  decide

theorem IsCanonical.nodup {headers : List (String × String)} (h : IsCanonical headers) : (headers.map Prod.fst).Nodup := by
  rw [h.names]
  exact identityHeaders_nodup

theorem valueOf_of_mem {found : List (String × String)} (hsingle : (found.map Prod.fst).Nodup) {f : String × String}
    (hf : f ∈ found) : valueOf found f.1 = f.2 := by
  have hunder := under_of_mem hsingle ⟨f, hf, rfl⟩
  have hin : f.2 ∈ under f.1 found := List.mem_map.mpr ⟨f, List.mem_filter.mpr ⟨hf, by simp⟩, rfl⟩
  rw [hunder] at hin
  exact (List.mem_singleton.mp hin).symm

theorem canonicalLoop_strings {canonical headers : List (String × String)}
    (hnodup : ((canonical ++ headers).map Prod.fst).Nodup) (hnames : ∀ f ∈ headers, f.1 ∈ identityHeaders)
    (hsafe : ∀ f ∈ headers, safeHeaderValue (.str f.2) = .ok f.2) :
    canonicalLoop canonical (asFields headers) = .ok (canonical ++ headers) := by
  induction headers generalizing canonical with
  | nil =>
    rw [List.append_nil]
    rfl
  | cons f headers ih =>
    obtain ⟨name, value⟩ := f
    obtain ⟨hlower, halias⟩ := identityHeaders_plain name (hnames _ List.mem_cons_self)
    have hmember : identityHeaders.contains name = true := List.contains_iff_mem.mpr (hnames _ List.mem_cons_self)
    have hfresh : (canonical.any fun g => g.1 = name) = false := by
      rw [List.any_eq_false]
      intro g hg heq
      rw [List.map_append, List.nodup_append] at hnodup
      exact hnodup.2.2 g.1 (List.mem_map_of_mem hg) name (by simp) (of_decide_eq_true heq)
    change canonicalLoop canonical ((name, .str value) :: asFields headers) = _
    rw [canonicalLoop, halias, hlower, String.ofList_toList]
    simp only [refuse_false, ok_bind, hmember, Bool.not_true, hfresh, hsafe _ List.mem_cons_self]
    rw [ih (by simpa using hnodup) (fun g hg => hnames g (List.mem_cons_of_mem _ hg))
      fun g hg => hsafe g (List.mem_cons_of_mem _ hg)]
    simp

theorem setDefaults_of_all {canonical defaults : List (String × String)}
    (h : ∀ f ∈ defaults, canonical.any (fun g => g.1 = f.1) = true) : defaults.foldl setDefault canonical = canonical := by
  induction defaults with
  | nil => rfl
  | cons f defaults ih =>
    rw [List.foldl_cons, setDefault, if_pos (h f List.mem_cons_self)]
    exact ih fun g hg => h g (List.mem_cons_of_mem _ hg)

theorem headerDefaults_names : ∀ f ∈ headerDefaults, f.1 ∈ identityHeaders := by decide

/-- Canonical headers, in whatever order they are given, are what is made of them. -/
theorem canonical_of_perm {headers given : List (String × String)} (h : IsCanonical headers) (hperm : given.Perm headers)
    (defaults : Bool) : canonicalIdentityHeaders (asFields given) defaults = .ok headers := by
  have hnodup : (given.map Prod.fst).Nodup := (hperm.map Prod.fst).nodup_iff.mpr h.nodup
  have hin : ∀ f ∈ given, f.1 ∈ identityHeaders := by
    intro f hf
    rw [← h.names]
    exact List.mem_map_of_mem (hperm.mem_iff.mp hf)
  have hpresent : ∀ n ∈ identityHeaders, (given.any fun f => f.1 = n) = true := by
    intro n hn
    rw [← h.names] at hn
    obtain ⟨f, hf, rfl⟩ := List.mem_map.mp hn
    exact List.any_eq_true.mpr ⟨f, hperm.mem_iff.mpr hf, by simp⟩
  have hvalue : ∀ n ∈ identityHeaders, valueOf given n = valueOf headers n := by
    intro n hn
    rw [← h.names] at hn
    obtain ⟨f, hf, rfl⟩ := List.mem_map.mp hn
    rw [valueOf_of_mem hnodup (hperm.mem_iff.mpr hf), valueOf_of_mem h.nodup hf]
  have hloop : canonicalLoop [] (asFields given) = .ok given :=
    canonicalLoop_strings (by simpa using hnodup) hin fun f hf => h.safe f (hperm.mem_iff.mp hf)
  have hdefaults : (if defaults = true then headerDefaults.foldl setDefault given else given) = given := by
    split
    · exact setDefaults_of_all fun f hf => hpresent f.1 (headerDefaults_names f hf)
    · rfl
  have hall : (identityHeaders.all fun n => given.any fun f => f.1 = n) = true := List.all_eq_true.mpr hpresent
  have huser : decide (valueOf headers "x-user-id" = "" ∨ valueOf headers "x-user-name" = "") = false :=
    decide_eq_false fun hor => hor.elim h.user.1 h.user.2
  have hsuper : decide (lower (valueOf headers "x-user-superuser").toList ≠ "true".toList ∧
      lower (valueOf headers "x-user-superuser").toList ≠ "false".toList) = false :=
    decide_eq_false fun hand => h.superuser.elim hand.1 hand.2
  have hback : identityHeaders.map (fun n => (n, valueOf given n)) = headers := by
    rw [List.map_congr_left fun n hn => by rw [hvalue n hn], ← h.names, List.map_map]
    refine (List.map_congr_left fun f hf => ?_).trans (List.map_id headers)
    rw [Function.comp_apply, valueOf_of_mem h.nodup hf, id]
  rw [canonicalIdentityHeaders, hloop, ok_bind]
  simp only [hdefaults, hall, hvalue "x-user-id" (by decide), hvalue "x-user-name" (by decide),
    hvalue "x-user-superuser" (by decide), huser, hsuper, Bool.not_true, refuse_false, ok_bind, hback]
  rfl

theorem canonicalLoop_values {canonical result : List (String × String)} {fields : Fields}
    (h : canonicalLoop canonical fields = .ok result) :
    ∀ g ∈ result, g ∈ canonical ∨ ∃ f ∈ fields, f.2 = .str g.2 ∧ safeHeaderValue (.str g.2) = .ok g.2 := by
  induction fields generalizing canonical with
  | nil =>
    rw [← Except.ok.inj h]
    exact fun g hg => .inl hg
  | cons f fields ih =>
    obtain ⟨rawName, rawValue⟩ := f
    rw [canonicalLoop] at h
    obtain ⟨-, h⟩ := refuse_bind h
    obtain ⟨-, h⟩ := refuse_bind h
    obtain ⟨-, h⟩ := refuse_bind h
    obtain ⟨value, hvalue, h⟩ := bind_ok h
    have hstr := safeHeaderValue_ok hvalue
    rw [hstr] at hvalue
    intro g hg
    obtain hin | ⟨f, hf, hfacts⟩ := ih h g hg
    · obtain hin | hin := List.mem_append.mp hin
      · exact .inl hin
      · rw [List.mem_singleton.mp hin]
        exact .inr ⟨_, List.mem_cons_self, hstr, hvalue⟩
    · exact .inr ⟨f, List.mem_cons_of_mem _ hf, hfacts⟩

theorem setDefaults_values {canonical defaults : List (String × String)} :
    ∀ g ∈ defaults.foldl setDefault canonical, g ∈ canonical ∨ g ∈ defaults := by
  induction defaults generalizing canonical with
  | nil => exact fun g hg => .inl hg
  | cons f defaults ih =>
    intro g hg
    rw [List.foldl_cons] at hg
    obtain hin | hin := ih g hg
    · unfold setDefault at hin
      split at hin
      · exact .inl hin
      · obtain hin | hin := List.mem_append.mp hin
        · exact .inl hin
        · rw [List.mem_singleton.mp hin]
          exact .inr List.mem_cons_self
    · exact .inr (List.mem_cons_of_mem _ hin)

theorem headerDefaults_safe : ∀ f ∈ headerDefaults, safeHeaderValue (.str f.2) = .ok f.2 ∧
    ∀ c ∈ f.2.toList, c.toNat < 0x100 := by
  have hlatin : ∀ f ∈ headerDefaults, (f.2.toList.all fun c => decide (c.toNat < 0x100)) = true := by decide
  have hsafe : ∀ f ∈ headerDefaults, safeHeaderValue (.str f.2) = .ok f.2 := by decide
  exact fun f hf => ⟨hsafe f hf, Search.forall_mem_of_all (hlatin f hf)⟩

/-- What is made of headers is canonical, and its values are given or defaults. -/
theorem canonical_spec {delegated : Fields} {defaults : Bool} {headers : List (String × String)}
    (h : canonicalIdentityHeaders delegated defaults = .ok headers) :
    IsCanonical headers ∧ ∀ g ∈ headers, (∃ f ∈ delegated, f.2 = .str g.2) ∨ ∃ f ∈ headerDefaults, f.2 = g.2 := by
  unfold canonicalIdentityHeaders at h
  obtain ⟨loop, hloop, h⟩ := bind_ok h
  dsimp only at h
  have hvalues : ∀ g ∈ (if defaults = true then headerDefaults.foldl setDefault loop else loop),
      ((∃ f ∈ delegated, f.2 = .str g.2) ∨ ∃ f ∈ headerDefaults, f.2 = g.2) ∧ safeHeaderValue (.str g.2) = .ok g.2 := by
    intro g hg
    have hor : g ∈ loop ∨ g ∈ headerDefaults := by
      split at hg
      · exact setDefaults_values g hg
      · exact .inl hg
    obtain hin | hin := hor
    · obtain hnil | ⟨f, hf, hstr, hsafe⟩ := canonicalLoop_values hloop g hin
      · cases hnil
      · exact ⟨.inl ⟨f, hf, hstr⟩, hsafe⟩
    · exact ⟨.inr ⟨g, hin, rfl⟩, (headerDefaults_safe g hin).1⟩
  generalize (if defaults = true then headerDefaults.foldl setDefault loop else loop) = canonical at h hvalues
  obtain ⟨hall, h⟩ := refuse_bind h
  obtain ⟨huser, h⟩ := refuse_bind h
  obtain ⟨hsuper, h⟩ := refuse_bind h
  have hsame : ∀ n ∈ identityHeaders, valueOf headers n = valueOf canonical n := by
    intro n hn
    rw [← Except.ok.inj h, valueOf_map _ hn]
  have hmem : ∀ g ∈ headers, ∃ f ∈ canonical, f.2 = g.2 := by
    intro g hg
    rw [← Except.ok.inj h] at hg
    obtain ⟨n, hn, rfl⟩ := List.mem_map.mp hg
    have hpresent : ∀ n ∈ identityHeaders, ∃ value, (n, value) ∈ canonical := by simpa using hall
    obtain ⟨value, hvalue⟩ := hpresent n hn
    dsimp only
    cases hlookup : canonical.lookup n with
    | none => exact absurd (List.lookup_eq_none_iff.mp hlookup _ hvalue) (by simp)
    | some found => exact ⟨(n, found), mem_of_lookup hlookup, by rw [valueOf, hlookup]; rfl⟩
  refine ⟨⟨?_, fun g hg => ?_, ?_, ?_⟩, fun g hg => ?_⟩
  · rw [← Except.ok.inj h, List.map_map]
    rfl
  · obtain ⟨f, hf, heq⟩ := hmem g hg
    rw [← heq]
    exact (hvalues f hf).2
  · have hne := of_decide_eq_false huser
    rw [hsame _ (by decide), hsame _ (by decide)]
    exact not_or.mp hne
  · have hne := of_decide_eq_false hsuper
    rw [hsame _ (by decide)]
    by_cases htrue : lower (valueOf canonical "x-user-superuser").toList = "true".toList
    · exact .inl htrue
    · exact .inr (not_not.mp fun hfalse => hne ⟨htrue, hfalse⟩)
  · obtain ⟨f, hf, heq⟩ := hmem g hg
    rw [← heq]
    exact (hvalues f hf).1

end XgenSdk.Principal
