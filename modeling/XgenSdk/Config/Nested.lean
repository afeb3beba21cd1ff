import XgenSdk.Py.Json
import XgenSdk.Lib.Dict
import XgenSdk.Lib.Runs
import Mathlib.Data.List.Basic
import Mathlib.Data.List.Infix
import Mathlib.Data.List.Nodup

/-! The settings as one flat dict and as nested dicts, which are built path by path. -/
namespace XgenSdk.Nested
open XgenSdk.Py

structure Setting where
  path : String
  value : Json

/-- `path.split('.')`. -/
def keys (path : String) : List String := (path.toList.splitOn '.').map String.ofList

/-- What the keys lead to, from dict to dict. -/
def valueAt : List String → Json → Option Json
  | [], v => some v
  | key :: rest, .obj fields => (Json.lookup key fields).bind (valueAt rest)
  | _ :: _, _ => none

/-- The walk to the last key, with the dicts that are missing, and the value that is set there; `none` where it raises. -/
def setPath : List String → Json → Json → Option Json
  | [], value, _ => some value
  | key :: rest, value, .obj fields =>
    (setPath rest value ((Json.lookup key fields).getD (.obj []))).map fun child => .obj (Dict.setEntries key child fields)
  | _ :: _, _, _ => none

def build (settings : List Setting) : Option Json := settings.foldlM (fun result s => setPath (keys s.path) s.value result) (.obj [])

/-- `get_category_configs_nested` of these settings; no result is `{}`. -/
def nested (settings : List Setting) : Json := (build settings).getD (.obj [])

def flat (settings : List Setting) : Json := .obj (settings.foldl (fun result s => Dict.setEntries s.path s.value result) [])

/-- The settings that `get_config_dict` asks the manager for. -/
def configsOf (categoryConfigs : String → List Setting) (allConfigs : List Setting) (category : Option String) : List Setting :=
  match category with
  | none => allConfigs
  | some name => if name = "" then allConfigs else categoryConfigs name

/-- `get_config_dict`. -/
def getConfigDict (categoryConfigs : String → List Setting) (allConfigs : List Setting) (category : Option String) (flatten : Bool) :
    Json :=
  let configs := configsOf categoryConfigs allConfigs category
  if flatten then flat configs else nested configs

/-! Walks. -/

/-- What is no dict. -/
def scalar (v : Option Json) : Option Json := v.filter fun v => !v.isObj

section Walks
variable {path other : List String} {value tree tree' : Json}

theorem lookup_setEntries (key other : String) (value : Json) (fields : List (String × Json)) :
    Json.lookup other (Dict.setEntries key value fields) = if key = other then some value else Json.lookup other fields :=
  Dict.find_setEntries key other value fields

/-- One step of a walk that does not raise. -/
theorem setPath_cons {key : String} (h : setPath (key :: path) value tree = some tree') :
    ∃ fields child, tree = .obj fields ∧ setPath path value ((Json.lookup key fields).getD (.obj [])) = some child ∧
      tree' = .obj (Dict.setEntries key child fields) := by
  cases tree with
  | obj fields =>
    obtain ⟨child, hchild, htree⟩ := Option.map_eq_some_iff.mp h
    exact ⟨fields, child, rfl, hchild, htree.symm⟩
  | _ => cases h

theorem valueAt_empty (path : List String) (h : path ≠ []) : valueAt path (.obj []) = none := by
  cases path with
  | nil => exact absurd rfl h
  | cons key path => rfl

/-- A walk raises exactly where it comes to what is no dict before its last key. -/
theorem setPath_isSome_iff (path : List String) (value tree : Json) :
    (setPath path value tree).isSome = true ↔ ∀ front, front <+: path → front ≠ path → scalar (valueAt front tree) = none := by
  induction path generalizing tree with
  | nil => exact iff_of_true rfl fun front hfront hne => absurd (List.prefix_nil.mp hfront) hne
  | cons key path ih =>
    by_cases hobj : ∃ fields, tree = .obj fields
    · obtain ⟨fields, rfl⟩ := hobj
      have hself : scalar (valueAt [] (.obj fields)) = none := rfl
      have hchild : ∀ front, scalar (valueAt front ((Json.lookup key fields).getD (.obj []))) =
          scalar (valueAt (key :: front) (.obj fields)) := by
        intro front
        rw [valueAt]
        cases Json.lookup key fields with
        | some child => rfl
        | none =>
          cases front with
          | nil => rfl
          | cons key' front => rfl
      rw [setPath, Option.isSome_map, ih]
      constructor
      · intro h front hfront hne
        cases front with
        | nil => exact hself
        | cons key' front =>
          obtain ⟨rfl, htail⟩ := List.cons_prefix_cons.mp hfront
          rw [← hchild]
          exact h front htail fun heq => hne (by rw [heq])
      · intro h front hfront hne
        rw [hchild]
        exact h (key :: front) (List.cons_prefix_cons.mpr ⟨rfl, hfront⟩) fun heq => hne (List.cons.inj heq).2
    · have hnone : setPath (key :: path) value tree = none := by
        cases tree with
        | obj fields => exact absurd ⟨fields, rfl⟩ hobj
        | _ => rfl
      have hscalar : scalar (valueAt [] tree) = some tree := by
        cases tree with
        | obj fields => exact absurd ⟨fields, rfl⟩ hobj
        | _ => rfl
      rw [hnone]
      refine iff_of_false (by simp) fun h => ?_
      have hfirst := h [] (List.nil_prefix) (by simp)
      rw [hscalar] at hfirst
      cases hfirst

/-- At its path a setting has its value. -/
theorem valueAt_setPath (rest : List String) (h : setPath path value tree = some tree') :
    valueAt (path ++ rest) tree' = valueAt rest value := by
  induction path generalizing tree tree' with
  | nil => rw [← Option.some.inj h, List.nil_append]
  | cons key path ih =>
    obtain ⟨fields, child, -, hchild, rfl⟩ := setPath_cons h
    rw [List.cons_append, valueAt, lookup_setEntries, if_pos rfl, Option.bind_some, ih hchild]

/-- Before the end of its path stand dicts. -/
theorem scalar_above (h : setPath path value tree = some tree') (hfront : other <+: path) (hne : other ≠ path) :
    scalar (valueAt other tree') = none := by
  induction path generalizing tree tree' other with
  | nil => exact absurd (List.prefix_nil.mp hfront) hne
  | cons key path ih =>
    obtain ⟨fields, child, -, hchild, rfl⟩ := setPath_cons h
    cases other with
    | nil => rfl
    | cons key' other =>
      obtain ⟨rfl, htail⟩ := List.cons_prefix_cons.mp hfront
      rw [valueAt, lookup_setEntries, if_pos rfl, Option.bind_some]
      exact ih hchild htail fun heq => hne (by rw [heq])

/-- Beside its path everything stays. -/
theorem valueAt_beside (h : setPath path value tree = some tree') (hbelow : ¬ path <+: other) (habove : ¬ other <+: path) :
    valueAt other tree' = valueAt other tree := by
  induction path generalizing tree tree' other with
  | nil => exact absurd List.nil_prefix hbelow
  | cons key path ih =>
    obtain ⟨fields, child, rfl, hchild, rfl⟩ := setPath_cons h
    cases other with
    | nil => exact absurd List.nil_prefix habove
    | cons key' other =>
      rw [valueAt, valueAt, lookup_setEntries]
      by_cases hkey : key = key'
      · subst hkey
        rw [if_pos rfl, Option.bind_some, ih hchild (fun h => hbelow (List.cons_prefix_cons.mpr ⟨rfl, h⟩))
          (fun h => habove (List.cons_prefix_cons.mpr ⟨rfl, h⟩))]
        cases Json.lookup key fields with
        | some old => rfl
        | none =>
          refine valueAt_empty other fun hnil => habove ?_
          rw [hnil]
          exact List.cons_prefix_cons.mpr ⟨rfl, List.nil_prefix⟩
      · rw [if_neg hkey]

end Walks

/-! Whole lists of settings. -/

/-- The last of the settings whose path the keys begin with. -/
def covering (settings : List Setting) (path : List String) : Option Setting :=
  (settings.filter fun s => (keys s.path).isPrefixOf path).getLast?

/-- What its value has there. -/
def standing (settings : List Setting) (path : List String) : Option Json :=
  (covering settings path).bind fun s => valueAt (path.drop (keys s.path).length) s.value

/-- No path leads through what the settings before it made no dict. -/
def Passable (settings : List Setting) : Prop :=
  ∀ front s back, settings = front ++ s :: back → ∀ path, path <+: keys s.path → path ≠ keys s.path → scalar (standing front path) = none

/-- No other path begins with this one, and it begins with no other. -/
def Isolated (settings : List Setting) (s : Setting) : Prop :=
  ∀ t ∈ settings, t.path ≠ s.path → ¬ keys t.path <+: keys s.path ∧ ¬ keys s.path <+: keys t.path

section Lists
variable {settings : List Setting} {s : Setting} {path : List String} {tree : Json}

theorem keys_ne_nil (path : String) : keys path ≠ [] := fun h => List.splitOn_ne_nil _ _ (List.map_eq_nil_iff.mp h)

theorem build_concat : build (settings ++ [s]) = (build settings).bind fun tree => setPath (keys s.path) s.value tree := by
  rw [build, List.foldlM_append]
  refine congrArg _ (funext fun tree => ?_)
  rw [List.foldlM_cons]
  exact bind_pure _

theorem covering_concat (h : keys s.path <+: path) : covering (settings ++ [s]) path = some s := by
  rw [covering, List.filter_append]
  simp [h]

theorem covering_before (h : ¬ keys s.path <+: path) : covering (settings ++ [s]) path = covering settings path := by
  rw [covering, List.filter_append]
  simp [h, covering]

/-- Where the dicts end in the tree, can be told from the settings. -/
theorem scalar_build (h : build settings = some tree) (path : List String) : scalar (valueAt path tree) = scalar (standing settings path) := by
  induction settings using List.reverseRecOn generalizing tree path with
  | nil =>
    rw [← Option.some.inj h]
    cases path <;> rfl
  | append_singleton settings s ih =>
    rw [build_concat] at h
    obtain ⟨before, hbefore, hset⟩ := Option.bind_eq_some_iff.mp h
    by_cases hbelow : keys s.path <+: path
    · obtain ⟨rest, rfl⟩ := hbelow
      rw [valueAt_setPath rest hset, standing, covering_concat (List.prefix_append _ _), Option.bind_some, List.drop_left]
    · have hstanding : standing (settings ++ [s]) path = standing settings path := by rw [standing, covering_before hbelow, standing]
      rw [hstanding]
      by_cases habove : path <+: keys s.path
      · have hne : path ≠ keys s.path := by
          rintro rfl
          exact hbelow List.prefix_rfl
        have hpassed := (setPath_isSome_iff _ _ _).mp (by rw [hset]; rfl) path habove hne
        rw [scalar_above hset habove hne, ← ih hbefore, hpassed]
      · rw [valueAt_beside hset hbelow habove, ih hbefore]

theorem passable_concat : Passable (settings ++ [s]) ↔ Passable settings ∧
    ∀ path, path <+: keys s.path → path ≠ keys s.path → scalar (standing settings path) = none := by
  constructor
  · intro h
    refine ⟨fun front t back hsplit => h front t (back ++ [s]) ?_, h settings s [] rfl⟩
    exact Runs.concat_eq_iff.mpr (.inr ⟨back, rfl, hsplit⟩)
  · rintro ⟨hbefore, hlast⟩ front t back hsplit
    obtain ⟨rfl, rfl, -⟩ | ⟨rest, -, hsettings⟩ := Runs.concat_eq_iff.mp hsplit
    · exact hlast
    · exact hbefore front t rest hsettings

/-- The tree is built exactly where every path leads through dicts. -/
theorem build_isSome_iff (settings : List Setting) : (build settings).isSome = true ↔ Passable settings := by
  induction settings using List.reverseRecOn with
  | nil => exact iff_of_true rfl fun front s back h => by simp at h
  | append_singleton settings s ih =>
    rw [passable_concat, build_concat]
    cases hbuild : build settings with
    | none =>
      rw [hbuild] at ih
      exact iff_of_false (by simp) fun h => absurd (ih.mpr h.1) (by simp)
    | some tree =>
      rw [hbuild] at ih
      rw [Option.bind_some, setPath_isSome_iff, and_iff_right (ih.mp rfl)]
      refine forall_congr' fun path => ?_
      rw [scalar_build hbuild]

/-- In the tree a setting that is beside all others has its value. -/
theorem valueAt_build (hdistinct : (settings.map Setting.path).Nodup) (hs : s ∈ settings) (hisolated : Isolated settings s)
    (h : build settings = some tree) : valueAt (keys s.path) tree = some s.value := by
  induction settings using List.reverseRecOn generalizing tree with
  | nil => cases hs
  | append_singleton settings t ih =>
    rw [build_concat] at h
    obtain ⟨before, hbefore, hset⟩ := Option.bind_eq_some_iff.mp h
    rw [List.map_append, List.nodup_append] at hdistinct
    obtain ⟨hnodup, -, hother⟩ := hdistinct
    obtain hs | hs := List.mem_append.mp hs
    · have hne : t.path ≠ s.path := fun heq => hother _ (List.mem_map_of_mem hs) _ (List.mem_singleton_self _) heq.symm
      obtain ⟨hbelow, habove⟩ := hisolated t (List.mem_append_right _ (List.mem_singleton_self _)) hne
      rw [valueAt_beside hset hbelow habove]
      exact ih hnodup hs (fun u hu => hisolated u (List.mem_append_left _ hu)) hbefore
    · obtain rfl := List.mem_singleton.mp hs
      have hself := valueAt_setPath [] hset
      rwa [List.append_nil] at hself

theorem valueAt_flat (hdistinct : (settings.map Setting.path).Nodup) (hs : s ∈ settings) :
    valueAt [s.path] (flat settings) = some s.value := by
  have hlookup : Json.lookup s.path (settings.foldl (fun result s => Dict.setEntries s.path s.value result) []) = some s.value := by
    induction settings using List.reverseRecOn with
    | nil => cases hs
    | append_singleton settings t ih =>
      rw [List.map_append, List.nodup_append] at hdistinct
      obtain ⟨hnodup, -, hother⟩ := hdistinct
      rw [List.foldl_append, List.foldl_cons, List.foldl_nil, lookup_setEntries]
      obtain hs | hs := List.mem_append.mp hs
      · have hne : t.path ≠ s.path := fun heq => hother _ (List.mem_map_of_mem hs) _ (List.mem_singleton_self _) heq.symm
        rw [if_neg hne, ih hnodup hs]
      · obtain rfl := List.mem_singleton.mp hs
        rw [if_pos rfl]
  rw [flat, valueAt, hlookup]
  rfl

/-- Which settings the nested view shows as the flat one does, for every list of settings in every order. -/
theorem nested_iff (categoryConfigs : String → List Setting) (allConfigs : List Setting) (category : Option String)
    (hdistinct : ((configsOf categoryConfigs allConfigs category).map Setting.path).Nodup) :
    (∀ s ∈ configsOf categoryConfigs allConfigs category, Isolated (configsOf categoryConfigs allConfigs category) s →
        ∃ v, valueAt [s.path] (getConfigDict categoryConfigs allConfigs category true) = some v ∧
          valueAt (keys s.path) (getConfigDict categoryConfigs allConfigs category false) = some v) ↔
      (∀ s ∈ configsOf categoryConfigs allConfigs category, ¬ Isolated (configsOf categoryConfigs allConfigs category) s) ∨
        Passable (configsOf categoryConfigs allConfigs category) := by
  rw [← build_isSome_iff]
  have hflat : getConfigDict categoryConfigs allConfigs category true = flat (configsOf categoryConfigs allConfigs category) := rfl
  have hnested : getConfigDict categoryConfigs allConfigs category false = nested (configsOf categoryConfigs allConfigs category) := rfl
  rw [hflat, hnested, nested]
  generalize configsOf categoryConfigs allConfigs category = settings at hdistinct
  cases hbuild : build settings with
  | none =>
    -- What raises leaves no setting at all.
    rw [Option.isSome_none, Option.getD_none]
    constructor
    · intro h
      refine .inl fun s hs hisolated => ?_
      obtain ⟨v, -, hv⟩ := h s hs hisolated
      rw [valueAt_empty _ (keys_ne_nil _)] at hv
      cases hv
    · rintro (h | h)
      · exact fun s hs hisolated => absurd hisolated (h s hs)
      · cases h
  | some tree =>
    refine iff_of_true (fun s hs hisolated => ?_) (.inr rfl)
    exact ⟨s.value, valueAt_flat hdistinct hs, valueAt_build hdistinct hs hisolated hbuild⟩

/-- Two settings beside each other. -/
theorem nested_two :
    (["app.port", "node"] : List String).Nodup ∧
      ∀ s ∈ [Setting.mk "app.port" (.int 1), ⟨"node", .int 2⟩], Isolated [⟨"app.port", .int 1⟩, ⟨"node", .int 2⟩] s →
        ∃ v, valueAt [s.path] (getConfigDict (fun _ => []) [⟨"app.port", .int 1⟩, ⟨"node", .int 2⟩] none true) = some v ∧
          valueAt (keys s.path) (getConfigDict (fun _ => []) [⟨"app.port", .int 1⟩, ⟨"node", .int 2⟩] none false) = some v := by
  refine ⟨by decide, ?_⟩
  exact (nested_iff (fun _ => []) [⟨"app.port", .int 1⟩, ⟨"node", .int 2⟩] none (by decide)).mpr
      (.inr ((build_isSome_iff _).mp rfl))

/-- A setting and one below it leave nothing of a third. -/
theorem nested_lost :
    let settings : List Setting := [⟨"app", .int 1⟩, ⟨"app.port", .int 2⟩, ⟨"node", .int 3⟩]
    (settings.map Setting.path).Nodup ∧ Isolated settings ⟨"node", .int 3⟩ ∧
      valueAt ["node"] (getConfigDict (fun _ => []) settings none true) = some (.int 3) ∧
        valueAt (keys "node") (getConfigDict (fun _ => []) settings none false) = none := by
  refine ⟨by decide, ?_, rfl, rfl⟩
  intro t ht hne
  simp only [List.mem_cons, List.not_mem_nil, or_false] at ht
  obtain rfl | rfl | rfl := ht
  · decide
  · decide
  · exact absurd rfl hne

end Lists
end XgenSdk.Nested
