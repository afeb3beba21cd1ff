import XgenSdk.ControlPolicy.Evidence
import Mathlib.Data.List.Induction

/-! Which results of the rules can be recorded: those whose texts, names and numbers stay
within the limits of the evidence. -/
namespace XgenSdk.Evidence
open XgenSdk.Py XgenSdk.Rules XgenSdk.Checks XgenSdk.Outcomes

/-- Within the limits on names and sample texts. -/
def DetectionFits (d : Detection) : Prop :=
  d.policyName.length ≤ maxName ∧
    ∀ s ∈ d.samples, s.original.length ≤ maxSampleText ∧ s.masked.length ≤ maxSampleText

/-- Within all of them: also on the detections of one type. -/
def Recordable (detections : List Detection) : Prop :=
  (∀ d ∈ detections, DetectionFits d) ∧
    ∀ policyType, (detections.filter fun d => d.policyType = policyType).length ≤ maxDetections

/-- What the caller says passes the checks of the event. -/
structure Context.Fits (c : Context) : Prop where
  texts : ∀ t ∈ c.texts, ∃ value, optionalText t.1 t.2 = .ok value
  userId : ∃ userId, actorId c.userId = .ok userId
  metadata : noMetadata c.metadata = true

/-! Every refusal is the same. -/

/-- The only error of the checks. -/
def Invalid (e : EvidenceWriteError) : Prop := e = requestInvalid

theorem textOf_ends (value : Json) (maximum : Nat) :
    Ends Invalid (fun s => s.length ≤ maximum) (textOf value maximum) := by
  cases value with
  | str s => exact .ite (fun _ => rfl) fun h => Nat.le_of_not_lt h
  | _ => exact rfl

theorem optionalText_ends (value : Json) (maximum : Nat) :
    Ends Invalid (fun t => ∀ s ∈ t, s.length ≤ maximum) (optionalText value maximum) := by
  have hsome : Ends Invalid (fun t => ∀ s ∈ t, s.length ≤ maximum) ((textOf value maximum).map some) := by
    have htext := textOf_ends value maximum
    cases htextOf : textOf value maximum with
    | error e =>
      rw [htextOf] at htext
      exact htext
    | ok s =>
      rw [htextOf] at htext
      intro r hr
      exact Option.some.inj hr ▸ htext
  cases value with
  | null => exact fun s hs => by cases hs
  | _ => exact hsome

theorem refuse_ends (wrong : Bool) : Ends Invalid (fun _ => wrong = false) (refuse wrong requestInvalid) := by
  cases wrong with
  | false => exact rfl
  | true => exact rfl

theorem sample_ends (original masked : Json) : Ends Invalid (fun _ => True) (EvidenceSample.make original masked) := by
  refine (textOf_ends original _).bind fun o _ => (textOf_ends masked _).bind fun m _ => ?_
  split
  · trivial
  · rfl

theorem buildSample_ends (sample : Json) : Ends Invalid (fun _ => True) (buildSample sample) := by
  cases sample with
  | obj fields => exact .ite (fun _ => sample_ends _ _) fun _ => rfl
  | _ => exact rfl

theorem rawSamples_ends (fields : List (String × Json)) : Ends Invalid (fun _ => True) (rawSamples fields) := by
  rw [rawSamples]
  split
  · exact .ite (fun _ => rfl) fun _ => trivial
  · rfl

theorem detection_ends (policyId policyName count : Json) (samples : List EvidenceSample) (enforced : Json) :
    Ends Invalid (fun _ => True) (EvidenceDetection.make policyId policyName count samples enforced) := by
  have hid : Ends Invalid (fun _ => True) (optionalId policyId) := by
    cases policyId with
    | null => trivial
    | int n => trivial
    | _ => exact rfl
  have hcount : Ends Invalid (fun _ => True) (countOf count) := by
    cases count with
    | int n => exact .ite (fun _ => rfl) fun _ => trivial
    | _ => exact rfl
  have hflag : Ends Invalid (fun _ => True) (flagOf enforced) := by
    cases enforced with
    | bool b => trivial
    | _ => exact rfl
  refine hid.bind fun _ _ => (textOf_ends policyName _).bind fun _ _ => hcount.bind fun _ _ => hflag.bind fun _ _ => ?_
  split
  · trivial
  · rfl

theorem buildDetection_ends (entry : Json) : Ends Invalid (fun _ => True) (buildDetection entry) := by
  cases entry with
  | obj fields =>
    refine .ite (fun _ => (rawSamples_ends fields).bind fun raw _ => ?_) fun _ => rfl
    exact (Ends.mapM fun s _ => buildSample_ends s).bind fun samples _ => detection_ends _ _ _ _ _
  | _ => exact rfl

theorem buildLoop_ends (normalized : List EvidenceDetection) (entries : List Json) :
    Ends Invalid (fun _ => True) (buildLoop normalized entries) := by
  induction entries generalizing normalized with
  | nil => trivial
  | cons entry entries ih =>
    exact .ite (fun _ => rfl) fun _ => (buildDetection_ends entry).bind fun d _ => ih (normalized ++ [d])

theorem buildDetections_ends (entries : List Json) : Ends Invalid (fun _ => True) (buildDetections entries) := by
  refine (buildLoop_ends [] entries).bind fun values _ => ?_
  rw [EvidenceDetections.make]
  split
  · trivial
  · rfl

theorem actorId_ends (value : Json) : Ends Invalid (fun userId => ∀ n ∈ userId, 0 < n) (actorId value) := by
  cases value with
  | null => exact fun n hn => by cases hn
  | int n =>
    refine .ite (fun _ => fun m hm => by cases hm) fun _ => .ite (fun hpos => ?_) fun _ => rfl
    intro m hm
    exact Option.some.inj hm ▸ hpos
  | _ => exact rfl

theorem checked_ends (e : EvidenceEvent) : Ends Invalid (fun _ => True) e.checked :=
  (refuse_ends _).bind fun _ _ => (refuse_ends _).bind fun _ _ => (refuse_ends _).bind fun _ _ =>
    (refuse_ends _).bind fun _ _ => trivial

theorem eventOf_ends (source policyType : String) (policyIds : List Int) (policyNames : List String) (totalDetected : Nat)
    (c : Context) : Ends Invalid (fun _ => True) (eventOf source policyType policyIds policyNames totalDetected c) := by
  refine (refuse_ends _).bind fun _ _ => (refuse_ends _).bind fun _ _ => (actorId_ends _).bind fun _ _ => ?_
  refine (optionalText_ends _ _).bind fun _ _ => (optionalText_ends _ _).bind fun _ _ => ?_
  refine (optionalText_ends _ _).bind fun _ _ => (optionalText_ends _ _).bind fun _ _ => ?_
  refine (optionalText_ends _ _).bind fun _ _ => (optionalText_ends _ _).bind fun _ _ => ?_
  refine (optionalText_ends _ _).bind fun _ _ => (optionalText_ends _ _).bind fun _ _ => ?_
  exact (optionalText_ends _ _).bind fun _ _ => checked_ends _

theorem recordOf_ends (source : String) (enforced : Bool) (c : Context) (policyType : String) (entries : List Detection) :
    Ends Invalid (fun _ => True) (recordOf source enforced c policyType entries) :=
  (buildDetections_ends _).bind fun _ _ => (refuse_ends _).bind fun _ _ => (eventOf_ends _ _ _ _ _ _).bind fun _ _ => trivial

/-! What passes them. -/

theorem textOf_str {s : String} {maximum : Nat} (h : s.length ≤ maximum) : textOf (.str s) maximum = .ok s :=
  if_neg (Nat.not_lt.mpr h)

theorem buildSample_iff (s : Sample) : (∃ x, buildSample (sampleEntry s) = .ok x) ↔
    s.original.length ≤ maxSampleText ∧ s.masked.length ≤ maxSampleText := by
  have hmake : buildSample (sampleEntry s) =
      EvidenceSample.make (.str (String.ofList s.original)) (.str (String.ofList s.masked)) := rfl
  rw [hmake]
  constructor
  · rintro ⟨x, hx⟩
    obtain ⟨o, ho, hx⟩ := bind_ok hx
    obtain ⟨m, hm, -⟩ := bind_ok hx
    have hlo := (textOf_ends _ _).of_ok ho
    have hlm := (textOf_ends _ _).of_ok hm
    rw [textOf] at ho hm
    split at ho
    · cases ho
    · split at hm
      · cases hm
      · rename_i hno hnm
        simpa using And.intro hno hnm
  · rintro ⟨ho, hm⟩
    have ho' : (String.ofList s.original).length ≤ maxSampleText := by simpa using ho
    have hm' : (String.ofList s.masked).length ≤ maxSampleText := by simpa using hm
    refine ⟨⟨_, _, ho', hm'⟩, ?_⟩
    rw [EvidenceSample.make, textOf_str ho', ok_bind, textOf_str hm', ok_bind, dif_pos ⟨ho', hm'⟩]
    rfl

def recordedFields (d : Detection) (enforced : Bool) : List (String × Json) :=
  [("policy_id", d.policyId.elim .null .int), ("policy_name", .str d.policyName), ("policy_type", .str d.policyType),
    ("count", .int d.count), ("samples", .arr (d.samples.map sampleEntry)), ("enforced", .bool enforced)]

/-- An entry of `apply_rules` has few samples. -/
theorem buildDetection_iff (d : Detection) (enforced : Bool) (hfew : d.samples.length ≤ maxSamples) :
    (∃ x, buildDetection ((entryOf d).set "enforced" (.bool enforced)) = .ok x) ↔ DetectionFits d := by
  have hset : (entryOf d).set "enforced" (.bool enforced) = .obj (recordedFields d enforced) := rfl
  have hraw : rawSamples (recordedFields d enforced) = .ok (d.samples.map sampleEntry) := by
    change (if maxSamples < (d.samples.map sampleEntry).length then _ else _) = _
    rw [if_neg (by rw [List.length_map]; omega)]
  have hbuild : buildDetection (.obj (recordedFields d enforced)) = (do
      let samples ← (d.samples.map sampleEntry).mapM buildSample
      EvidenceDetection.make (d.policyId.elim .null .int) (.str d.policyName) (.int d.count) samples (.bool enforced)) := by
    change (rawSamples (recordedFields d enforced) >>= _) = _
    rw [hraw, ok_bind]
    rfl
  have hid : optionalId (d.policyId.elim .null .int) = .ok d.policyId := by
    cases d.policyId with
    | none => rfl
    | some n => rfl
  have hcount : countOf (.int d.count) = .ok d.count := by
    rw [countOf, if_neg (by omega)]
    rfl
  have hsamples : (∃ samples, (d.samples.map sampleEntry).mapM buildSample = .ok samples) ↔
      ∀ s ∈ d.samples, s.original.length ≤ maxSampleText ∧ s.masked.length ≤ maxSampleText := by
    rw [mapM_ok_iff, List.forall_mem_map]
    exact forall₂_congr fun s _ => buildSample_iff s
  rw [hset, hbuild, DetectionFits, ← hsamples]
  constructor
  · rintro ⟨x, hx⟩
    obtain ⟨samples, hall, hx⟩ := bind_ok hx
    rw [EvidenceDetection.make, hid, ok_bind] at hx
    obtain ⟨name, hname, -⟩ := bind_ok hx
    rw [textOf] at hname
    split at hname
    · cases hname
    · rename_i hfits
      exact ⟨Nat.le_of_not_lt hfits, samples, hall⟩
  · rintro ⟨hname, samples, hall⟩
    have hlength : samples.length ≤ maxSamples := by
      rw [← (mapM_eq_ok hall).length_eq, List.length_map]
      exact hfew
    refine ⟨⟨d.policyId, d.policyName, d.count, samples, enforced, hname, hlength⟩, ?_⟩
    rw [hall, ok_bind, EvidenceDetection.make, hid, ok_bind, textOf_str hname, ok_bind, hcount, ok_bind]
    change (if h : d.policyName.length ≤ maxName ∧ samples.length ≤ maxSamples then _ else _) = _
    rw [dif_pos ⟨hname, hlength⟩]
    rfl

theorem buildLoop_iff (normalized : List EvidenceDetection) (entries : List Json) :
    (∃ values, buildLoop normalized entries = .ok values ∧ values.length ≤ maxDetections) ↔
      normalized.length + entries.length ≤ maxDetections ∧ ∀ entry ∈ entries, ∃ d, buildDetection entry = .ok d := by
  induction entries generalizing normalized with
  | nil => simp [buildLoop]
  | cons entry entries ih =>
    rw [buildLoop, List.length_cons, List.forall_mem_cons]
    split
    · rename_i hfull
      refine iff_of_false ?_ fun h => by omega
      rintro ⟨values, hvalues, -⟩
      cases hvalues
    · constructor
      · rintro ⟨values, hvalues, hle⟩
        obtain ⟨d, hd, hrest⟩ := bind_ok hvalues
        obtain ⟨hlength, hall⟩ := (ih (normalized ++ [d])).mp ⟨values, hrest, hle⟩
        rw [List.length_append, List.length_singleton] at hlength
        exact ⟨by omega, ⟨d, hd⟩, hall⟩
      · rintro ⟨hlength, ⟨d, hd⟩, hall⟩
        obtain ⟨values, hvalues, hle⟩ := (ih (normalized ++ [d])).mpr
          ⟨by rw [List.length_append, List.length_singleton]; omega, hall⟩
        exact ⟨values, by rw [hd, ok_bind, hvalues], hle⟩

theorem buildDetections_iff (entries : List Json) : (∃ ds, buildDetections entries = .ok ds) ↔
    entries.length ≤ maxDetections ∧ ∀ entry ∈ entries, ∃ d, buildDetection entry = .ok d := by
  have hloop := buildLoop_iff [] entries
  rw [List.length_nil, Nat.zero_add] at hloop
  rw [← hloop]
  constructor
  · rintro ⟨ds, hds⟩
    obtain ⟨values, hvalues, hds⟩ := bind_ok hds
    rw [EvidenceDetections.make] at hds
    split at hds
    · rename_i hle
      exact ⟨values, hvalues, hle⟩
    · cases hds
  · rintro ⟨values, hvalues, hle⟩
    exact ⟨⟨values, hle⟩, by rw [buildDetections, hvalues, ok_bind, EvidenceDetections.make, dif_pos hle]⟩

theorem checked_ok {e : EvidenceEvent} (hsource : e.source ∈ sources) (htype : e.policyType ∈ policyTypes)
    (hids : e.policyIds.length ≤ maxNames) (hnames : e.policyNames.length ≤ maxNames)
    (hname : ∀ name ∈ e.policyNames, name.length ≤ maxName) (htexts : ∀ t ∈ e.texts, ∀ s ∈ t.1, s.length ≤ t.2)
    (huser : ∀ n ∈ e.userId, 0 < n) : e.checked = .ok e := by
  have hfirst : (!sources.contains e.source || !policyTypes.contains e.policyType) = false := by simp [hsource, htype]
  have hsecond : (decide (maxNames < e.policyIds.length) || decide (maxNames < e.policyNames.length) ||
      e.policyNames.any fun name => maxName < name.length) = false := by
    simpa [hids, hnames] using hname
  have hthird : (e.texts.any fun t => t.1.any fun s => t.2 < s.length) = false := by
    rw [List.any_eq_false]
    intro t ht
    rw [Bool.not_eq_true]
    cases hvalue : t.1 with
    | none => rfl
    | some s => simpa using htexts t ht s hvalue
  have hfourth : (e.userId.any fun n => n ≤ 0) = false := by
    cases hvalue : e.userId with
    | none => rfl
    | some n => simpa using huser n hvalue
  rw [EvidenceEvent.checked, hfirst, hsecond, hthird, hfourth]
  rfl

theorem optionalText_ok {c : Context} (hc : c.Fits) {t : Json × Nat} (ht : t ∈ c.texts) :
    ∃ value, optionalText t.1 t.2 = .ok value ∧ ∀ s ∈ value, s.length ≤ t.2 := by
  obtain ⟨value, hvalue⟩ := hc.texts t ht
  exact ⟨value, hvalue, (optionalText_ends t.1 t.2).of_ok hvalue⟩

theorem eventOf_ok {source policyType : String} {policyIds : List Int} {policyNames : List String} (totalDetected : Nat)
    {c : Context} (hsource : source ∈ sources) (htype : policyType ∈ policyTypes) (hids : policyIds.length ≤ maxNames)
    (hnames : policyNames.length ≤ maxNames) (hname : ∀ name ∈ policyNames, name.length ≤ maxName) (hc : c.Fits) :
    ∃ event, eventOf source policyType policyIds policyNames totalDetected c = .ok event := by
  have hfirst : (!sources.contains source || !policyTypes.contains policyType) = false := by simp [hsource, htype]
  have hsecond : (decide (maxNames < policyIds.length) || decide (maxNames < policyNames.length) ||
      policyNames.any fun name => maxName < name.length) = false := by
    simpa [hids, hnames] using hname
  obtain ⟨userId, huser⟩ := hc.userId
  obtain ⟨workflowId, hworkflow, hw⟩ := optionalText_ok hc (t := (c.workflowId, 255)) (by simp [Context.texts])
  obtain ⟨executionId, hexecution, he⟩ := optionalText_ok hc (t := (c.executionId, 255)) (by simp [Context.texts])
  obtain ⟨interactionId, hinteraction, hi⟩ := optionalText_ok hc (t := (c.interactionId, 255)) (by simp [Context.texts])
  obtain ⟨nodeId, hnode, hn⟩ := optionalText_ok hc (t := (c.nodeId, 128)) (by simp [Context.texts])
  obtain ⟨collectionName, hcollection, hcn⟩ := optionalText_ok hc (t := (c.collectionName, 255)) (by simp [Context.texts])
  obtain ⟨displayName, hdisplay, hd⟩ := optionalText_ok hc (t := (c.collectionDisplayName, 255)) (by simp [Context.texts])
  obtain ⟨documentName, hdocument, hdn⟩ := optionalText_ok hc (t := (c.documentName, 1024)) (by simp [Context.texts])
  obtain ⟨username, husername, hu⟩ := optionalText_ok hc (t := (c.username, 255)) (by simp [Context.texts])
  obtain ⟨sessionId, hsession, hs⟩ := optionalText_ok hc (t := (c.sessionId, 128)) (by simp [Context.texts])
  refine ⟨⟨source, policyType, policyIds, policyNames, totalDetected, workflowId, executionId, interactionId, nodeId,
    collectionName, displayName, documentName, userId, username, sessionId⟩, ?_⟩
  rw [eventOf, hfirst, hsecond, refuse_false, ok_bind, ok_bind, huser, ok_bind, hworkflow, ok_bind, hexecution,
    ok_bind, hinteraction, ok_bind, hnode, ok_bind, hcollection, ok_bind, hdisplay, ok_bind, hdocument, ok_bind, husername,
    ok_bind, hsession, ok_bind]
  refine checked_ok hsource htype hids hnames hname ?_ ((actorId_ends c.userId).of_ok huser)
  simp only [EvidenceEvent.texts, List.forall_mem_cons, List.not_mem_nil, false_implies, implies_true, and_true]
  exact ⟨hw, he, hi, hn, hcn, hd, hdn, hu, hs⟩

/-- A record of one type is made where its detections are within the limits. -/
theorem recordOf_iff {source : String} (enforced : Bool) {c : Context} {policyType : String} {entries : List Detection}
    (hsource : source ∈ sources) (htype : policyType ∈ policyTypes) (hc : c.Fits)
    (hfew : ∀ d ∈ entries, d.samples.length ≤ maxSamples) : (∃ record, recordOf source enforced c policyType entries = .ok record) ↔
      entries.length ≤ maxDetections ∧ ∀ d ∈ entries, DetectionFits d := by
  have hbuild : (∃ ds, buildDetections (entries.map fun d => (entryOf d).set "enforced" (.bool enforced)) = .ok ds) ↔
      entries.length ≤ maxDetections ∧ ∀ d ∈ entries, DetectionFits d := by
    rw [buildDetections_iff, List.length_map, List.forall_mem_map]
    exact and_congr_right fun _ => forall₂_congr fun d hd => buildDetection_iff d enforced (hfew d hd)
  constructor
  · rintro ⟨record, hrecord⟩
    obtain ⟨ds, hds, -⟩ := bind_ok hrecord
    exact hbuild.mp ⟨ds, hds⟩
  · rintro ⟨hlength, hfits⟩
    obtain ⟨ds, hds⟩ := hbuild.mpr ⟨hlength, hfits⟩
    have hids : (entries.filterMap Detection.policyId).length ≤ maxNames := (List.length_filterMap_le _ _).trans hlength
    have hnames : (entries.map Detection.policyName).length ≤ maxNames := by
      rw [List.length_map]
      exact hlength
    have hname : ∀ name ∈ entries.map Detection.policyName, name.length ≤ maxName :=
      List.forall_mem_map.mpr fun d hd => (hfits d hd).1
    obtain ⟨event, hevent⟩ := eventOf_ok (entries.map Detection.count).sum hsource htype hids hnames hname hc
    refine ⟨(event, ds), ?_⟩
    rw [recordOf, hds, ok_bind, hc.metadata, Bool.not_true, refuse_false, ok_bind, hevent, ok_bind]
    rfl

/-! The detections of each type. -/

theorem byType_get (detections : List Detection) (policyType : String) : (byType detections).get policyType =
    if (detections.filter fun d => d.policyType = policyType) = [] then none
    else some (detections.filter fun d => d.policyType = policyType) := by
  induction detections using List.reverseRecOn with
  | nil => rfl
  | append_singleton detections d ih =>
    rw [byType, List.foldl_append, List.foldl_cons, List.foldl_nil, Dict.get_set, List.filter_append]
    change (if d.policyType = policyType then some (((byType detections).get d.policyType).getD [] ++ [d])
      else (byType detections).get policyType) = _
    by_cases htype : d.policyType = policyType
    · rw [if_pos htype, htype, ih, List.filter_cons_of_pos (by simpa using htype), List.filter_nil,
        if_neg (List.append_ne_nil_of_right_ne_nil _ (List.cons_ne_nil d []))]
      split
      · rename_i hnil
        rw [hnil]
        rfl
      · rfl
    · rw [if_neg htype, ih, List.filter_cons_of_neg (by simpa using htype), List.filter_nil, List.append_nil]

theorem mem_byType {detections : List Detection} {policyType : String} {entries : List Detection} :
    (policyType, entries) ∈ (byType detections).entries ↔
      entries = (detections.filter fun d => d.policyType = policyType) ∧ entries ≠ [] := by
  rw [Dict.mem_entries_iff, byType_get]
  split
  · rename_i hnil
    refine iff_of_false (fun h => by cases h) ?_
    rintro ⟨rfl, hne⟩
    exact hne hnil
  · rename_i hne
    rw [Option.some.injEq]
    constructor
    · rintro rfl
      exact ⟨rfl, hne⟩
    · rintro ⟨rfl, -⟩
      rfl

/-- Each type is within the limits where all detections are. -/
theorem recordable_iff {detections : List Detection} : Recordable detections ↔
    ∀ g ∈ (byType detections).entries, g.2.length ≤ maxDetections ∧ ∀ d ∈ g.2, DetectionFits d := by
  constructor
  · rintro ⟨hfits, hlength⟩ g hg
    obtain ⟨heq, -⟩ := mem_byType.mp hg
    rw [heq]
    exact ⟨hlength g.1, fun d hd => hfits d (List.mem_filter.mp hd).1⟩
  · intro h
    have hgroup : ∀ policyType, (detections.filter fun d => d.policyType = policyType) ≠ [] →
        (policyType, detections.filter fun d => d.policyType = policyType) ∈ (byType detections).entries :=
      fun policyType hne => mem_byType.mpr ⟨rfl, hne⟩
    refine ⟨fun d hd => ?_, fun policyType => ?_⟩
    · have hmem : d ∈ detections.filter fun e => e.policyType = d.policyType := List.mem_filter.mpr ⟨hd, by simp⟩
      exact (h _ (hgroup d.policyType (List.ne_nil_of_mem hmem))).2 d hmem
    · by_cases hnil : (detections.filter fun d => d.policyType = policyType) = []
      · rw [hnil]
        exact Nat.zero_le _
      · exact (h _ (hgroup policyType hnil)).1

/-! What the rules detect. -/

theorem length_collectSamples (text : Text) {samples : List Sample} (h : samples.length < sampleLimit) (hits : List Match) :
    (collectSamples text samples hits).length ≤ sampleLimit := by
  induction hits generalizing samples with
  | nil => exact h.le
  | cons hit hits ih =>
    rw [collectSamples]
    split
    · exact ih h
    · dsimp only
      split
      · rw [List.length_append, List.length_singleton]
        exact h
      · rename_i hmore
        exact ih (Nat.lt_of_not_le hmore)

theorem applyRule_detections {mask : Bool} {result : MaskingResult} {rule : MaskingRule} :
    ∀ d ∈ (applyRule mask result rule).detections,
      d ∈ result.detections ∨ d.samples.length ≤ sampleLimit ∧ d.policyType = rule.policyType := by
  intro d hd
  unfold applyRule at hd
  dsimp only at hd
  split at hd
  · exact .inl hd
  · have hd' : d ∈ result.detections ++ [{
        policyId := rule.policyId, policyName := rule.policyName, policyType := rule.policyType
        count := (rule.hits result.text).length, samples := collectSamples result.text [] (rule.hits result.text) }] := by
      split at hd <;> exact hd
    obtain hd' | hd' := List.mem_append.mp hd'
    · exact .inl hd'
    · rw [List.mem_singleton.mp hd']
      exact .inr ⟨length_collectSamples _ (by decide) _, rfl⟩

theorem foldl_detections {mask : Bool} {rules : List MaskingRule} {result : MaskingResult} :
    ∀ d ∈ (rules.foldl (applyRule mask) result).detections,
      d ∈ result.detections ∨ d.samples.length ≤ sampleLimit ∧ ∃ r ∈ rules, d.policyType = r.policyType := by
  induction rules generalizing result with
  | nil => exact fun d hd => .inl hd
  | cons rule rules ih =>
    intro d hd
    obtain hd | ⟨hfew, r, hr, htype⟩ := ih d hd
    · obtain hd | ⟨hfew, htype⟩ := applyRule_detections d hd
      · exact .inl hd
      · exact .inr ⟨hfew, rule, List.mem_cons_self, htype⟩
    · exact .inr ⟨hfew, r, List.mem_cons_of_mem rule hr, htype⟩

/-- Each detection is one of a rule. -/
theorem applyRules_detections {text : Text} {rules : List MaskingRule} {mask : Bool} {d : Detection}
    (hd : d ∈ (applyRules text rules mask).detections) :
    d.samples.length ≤ sampleLimit ∧ ∃ r ∈ rules, d.policyType = r.policyType := by
  unfold applyRules at hd
  dsimp only at hd
  split at hd
  · cases hd
  · obtain hd | hd := foldl_detections d hd
    · cases hd
    · exact hd

/-! The loop over the types. -/

/-- A run over types within the limits ends only where the delivery does. -/
theorem logLoop_fits {deliver : Delivery} {source : String} {enforced : Bool} {c : Context} {written : Nat}
    {groups : List (String × List Detection)}
    (h : ∀ g ∈ groups, g.1 ≠ "" → ∃ record, recordOf source enforced c g.1 g.2 = .ok record) {e : EvidenceWriteError}
    (he : logLoop deliver source enforced c written groups = .error e) : ∃ event detections, deliver event detections = .error e := by
  induction groups generalizing written with
  | nil => cases he
  | cons g groups ih =>
    have htail : ∀ g' ∈ groups, g'.1 ≠ "" → ∃ record, recordOf source enforced c g'.1 g'.2 = .ok record :=
      fun g' hg' => h g' (List.mem_cons_of_mem g hg')
    rw [logLoop] at he
    split at he
    · exact ih htail he
    · rename_i htype
      obtain ⟨record, hrecord⟩ := h g List.mem_cons_self htype
      rw [hrecord, ok_bind] at he
      obtain hdeliver | ⟨_, _, he⟩ := bind_error he
      · exact ⟨record.1, record.2, hdeliver⟩
      · exact ih htail he

/-- A type outside the limits is reached and refused, where what comes before it is delivered. -/
theorem logLoop_refuses {deliver : Delivery} (hdeliver : ∀ event detections, deliver event detections = .ok ())
    {source : String} {enforced : Bool} {c : Context} {written : Nat} {groups : List (String × List Detection)}
    {g : String × List Detection} (hg : g ∈ groups) (htype : g.1 ≠ "")
    (hno : ¬ ∃ record, recordOf source enforced c g.1 g.2 = .ok record) :
    logLoop deliver source enforced c written groups = .error requestInvalid := by
  induction groups generalizing written with
  | nil => cases hg
  | cons g' groups ih =>
    rw [logLoop]
    split
    · rename_i hempty
      obtain rfl | hg := List.mem_cons.mp hg
      · exact absurd hempty htype
      · exact ih hg
    · have hends := recordOf_ends source enforced c g'.1 g'.2
      cases hrecord : recordOf source enforced c g'.1 g'.2 with
      | error e =>
        rw [hrecord] at hends
        rw [show e = requestInvalid from hends]
        rfl
      | ok record =>
        obtain rfl | hg := List.mem_cons.mp hg
        · exact absurd ⟨record, hrecord⟩ hno
        · rw [ok_bind, hdeliver, ok_bind]
          exact ih hg

section Result
variable {text : Text} {rules : List MaskingRule} {mask : Bool} {source : String} (enforced : Bool) {c : Context}
  {deliver : Delivery}

/-- The types of a result, each of which is recorded where it is within the limits. -/
theorem byType_recordOf (hsource : source ∈ sources) (htypes : ∀ r ∈ rules, r.policyType ∈ policyTypes) (hc : c.Fits) :
    ∀ g ∈ (byType (applyRules text rules mask).detections).entries, g.1 ≠ "" ∧
      ((∃ record, recordOf source enforced c g.1 g.2 = .ok record) ↔
        g.2.length ≤ maxDetections ∧ ∀ d ∈ g.2, DetectionFits d) := by
  intro g hg
  obtain ⟨heq, hne⟩ := mem_byType.mp hg
  have hmem : ∀ d ∈ g.2, d ∈ (applyRules text rules mask).detections ∧ d.policyType = g.1 := by
    intro d hd
    rw [heq] at hd
    exact ⟨(List.mem_filter.mp hd).1, of_decide_eq_true (List.mem_filter.mp hd).2⟩
  obtain ⟨d, hd⟩ := List.exists_mem_of_ne_nil g.2 hne
  obtain ⟨-, r, hr, hrule⟩ := applyRules_detections (hmem d hd).1
  have htype : g.1 ∈ policyTypes := (hmem d hd).2 ▸ hrule ▸ htypes r hr
  refine ⟨fun hempty => ?_, recordOf_iff enforced hsource htype hc fun d hd => ?_⟩
  · rw [hempty] at htype
    exact absurd htype (by decide)
  · exact (applyRules_detections (hmem d hd).1).1.trans (by decide)

theorem logResult_of_recordable (hsource : source ∈ sources) (htypes : ∀ r ∈ rules, r.policyType ∈ policyTypes) (hc : c.Fits)
    (h : Recordable (applyRules text rules mask).detections) {e : EvidenceWriteError}
    (he : logResult deliver source enforced c (applyRules text rules mask) = .error e) :
    ∃ event detections, deliver event detections = .error e := by
  rw [logResult] at he
  split at he
  · cases he
  · exact logLoop_fits (fun g hg _ => (byType_recordOf enforced hsource htypes hc g hg).2.mpr (recordable_iff.mp h g hg)) he

theorem logResult_refuses (hsource : source ∈ sources) (htypes : ∀ r ∈ rules, r.policyType ∈ policyTypes) (hc : c.Fits)
    (h : ¬ Recordable (applyRules text rules mask).detections) (hdeliver : ∀ event detections, deliver event detections = .ok ()) :
    logResult deliver source enforced c (applyRules text rules mask) = .error requestInvalid := by
  rw [recordable_iff] at h
  obtain ⟨g, hg⟩ := not_forall.mp h
  obtain ⟨hg, hlimits⟩ := Classical.not_imp.mp hg
  have hne : ¬ (applyRules text rules mask).detections.isEmpty = true := by
    intro hempty
    rw [List.isEmpty_iff.mp hempty] at hg
    cases hg
  rw [logResult, if_neg hne]
  refine logLoop_refuses hdeliver hg (byType_recordOf enforced hsource htypes hc g hg).1 fun hrecord => ?_
  exact hlimits ((byType_recordOf enforced hsource htypes hc g hg).2.mp hrecord)

end Result

/-- A result within the limits ends only where the delivery does, and any other is refused. -/
theorem logResult_recordable {text : Text} {rules : List MaskingRule} (mask : Bool) {source : String} (enforced : Bool)
    {c : Context} (deliver : Delivery) (hsource : source ∈ sources) (htypes : ∀ r ∈ rules, r.policyType ∈ policyTypes)
    (hc : c.Fits) :
    (Recordable (applyRules text rules mask).detections → ∀ e,
      logResult deliver source enforced c (applyRules text rules mask) = .error e →
        ∃ event detections, deliver event detections = .error e) ∧
    (¬ Recordable (applyRules text rules mask).detections → (∀ event detections, deliver event detections = .ok ()) →
      logResult deliver source enforced c (applyRules text rules mask) = .error requestInvalid) :=
  ⟨fun h _ he => logResult_of_recordable enforced hsource htypes hc h he, fun h hdeliver => logResult_refuses enforced hsource htypes hc h hdeliver⟩

/-! A rule that finds the whole text. -/

def anyText : MaskingRule where
  policyId := some 1
  policyName := "all"
  policyType := "pii"
  finditer text := if text.isEmpty then [] else [⟨0, text.length, ['*']⟩]
  ordered text := by
    cases text with
    | nil => trivial
    | cons c text => exact ⟨Nat.le_refl _, Nat.zero_le _, Nat.le_refl _, trivial⟩

theorem anyText_detections {text : Text} (h : text ≠ []) (mask : Bool) :
    (applyRules text [anyText] mask).detections = [⟨some 1, "all", "pii", 1, [⟨text, ['*']⟩]⟩] := by
  obtain ⟨c, rest, rfl⟩ := List.exists_cons_of_ne_nil h
  have hhits : anyText.hits (c :: rest) = [⟨0, (c :: rest).length, ['*']⟩] := rfl
  have hsamples : collectSamples (c :: rest) [] [⟨0, (c :: rest).length, ['*']⟩] = [⟨c :: rest, ['*']⟩] := by
    simp only [collectSamples, Splice.slice_full]
    rfl
  change (applyRule mask ⟨c :: rest, [], 0, [], [], 1⟩ anyText).detections = _
  rw [applyRule, hhits]
  dsimp only
  rw [hsamples]
  split
  · rename_i hnil
    cases hnil
  · split <;> rfl

theorem anyText_types : ∀ r ∈ [anyText], r.policyType ∈ policyTypes := by
  intro r hr
  rw [List.mem_singleton.mp hr]
  decide

theorem noContext_fits : Context.Fits {} where
  texts t ht := by
    simp only [Context.texts, List.mem_cons, List.not_mem_nil, or_false] at ht
    obtain rfl | rfl | rfl | rfl | rfl | rfl | rfl | rfl | rfl := ht <;> exact ⟨none, rfl⟩
  userId := ⟨none, rfl⟩
  metadata := rfl

theorem logResult_recordable_short : Recordable (applyRules ['a'] [anyText] true).detections ∧ ∀ e,
    logResult (fun _ _ => .ok ()) "chat_input" true {} (applyRules ['a'] [anyText] true) = .error e →
      ∃ event detections, (fun _ _ => .ok () : Delivery) event detections = .error e := by
  have hrecordable : Recordable (applyRules ['a'] [anyText] true).detections := by
    rw [anyText_detections (by decide)]
    refine ⟨fun d hd => ?_, fun policyType => (List.length_filter_le _ _).trans (by decide)⟩
    rw [List.mem_singleton.mp hd]
    refine ⟨by decide, fun s hs => ?_⟩
    rw [List.mem_singleton.mp hs]
    decide
  exact ⟨hrecordable, (logResult_recordable true true (fun _ _ => .ok ()) (by decide) anyText_types noContext_fits).1 hrecordable⟩

/-- One character more than a sample may have. -/
def longText : Text := List.replicate (maxSampleText + 1) 'a'

theorem logResult_refused : ¬ ∀ (text : Text) (rules : List MaskingRule) (mask enforced : Bool) (source : String) (c : Context)
    (deliver : Delivery), source ∈ sources → (∀ r ∈ rules, r.policyType ∈ policyTypes) → c.Fits →
      (∀ event detections, deliver event detections = .ok ()) →
        logResult deliver source enforced c (applyRules text rules mask) ≠ .error requestInvalid := by
  intro h
  refine h longText [anyText] true true "chat_input" {} (fun _ _ => .ok ()) (by decide) anyText_types noContext_fits
    (fun _ _ => rfl) (logResult_refuses true (by decide) anyText_types noContext_fits ?_ fun _ _ => rfl)
  have hlength : longText.length = maxSampleText + 1 := List.length_replicate
  rw [anyText_detections (List.ne_nil_of_length_eq_add_one hlength)]
  intro hrecordable
  have hfits := ((hrecordable.1 _ (List.mem_singleton_self _)).2 _ (List.mem_singleton_self _)).1
  rw [hlength] at hfits
  exact absurd hfits (Nat.not_succ_le_self _)

end XgenSdk.Evidence
