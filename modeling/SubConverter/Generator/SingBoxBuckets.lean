import SubConverter.Generator.SingBoxRules

set_option autoImplicit false

namespace SubConverter.Generator.SingBox

section Shapes

abbrev Shape := Text × ValueKind × Bool

def Condition.shape (condition : Condition) : Shape := (condition.field, condition.kind, condition.matchRuleSetSource)

def SingBoxRuleBucket.shape (bucket : SingBoxRuleBucket) : Shape := (bucket.field, bucket.kind, bucket.matchRuleSetSource)

def ipVersion : Text := chars "ip_version"

-- Under every type, the shapes of its conditions.
def typedShapes : List (Text × Shape) :=
  plainFields.map (fun entry => (entry.1, entry.2, .string, false)) ++
    integerFields.map (fun entry => (entry.1, entry.2.1, .integer, false)) ++
    [(chars "IP-VERSION", ipVersion, .integer, false), (chars "GEOSITE", chars "rule_set", .string, false),
      (chars "GEOIP", chars "rule_set", .string, false), (chars "SRC-GEOIP", chars "rule_set", .string, true),
      (chars "GEOIP", chars "ip_is_private", .boolean, false), (chars "SRC-GEOIP", chars "source_ip_is_private", .boolean, false)]

def shapes : List Shape := typedShapes.map Prod.snd

def Shape.key (shape : Shape) : Text := shape.1 ++ if shape.2.2 then chars ":source" else chars ":destination"

variable {type value : Text} {condition other : Condition}

theorem typedShape_mem (converts : singBoxCondition type value = some condition) : (type, condition.shape) ∈ typedShapes := by
  rw [singBoxCondition] at converts
  split at converts
  next version =>
    split at converts
    next =>
      obtain rfl := Option.some.inj converts
      simp [typedShapes, Condition.shape, ipVersion, version]
    next => cases converts
  next =>
    split at converts
    next site =>
      split at converts
      next =>
        obtain rfl := Option.some.inj converts
        simp [typedShapes, Condition.shape, site]
      next => cases converts
    next =>
      split at converts
      next ip =>
        have either : condition.shape =
              (if type = chars "SRC-GEOIP" then chars "source_ip_is_private" else chars "ip_is_private", .boolean, false) ∨
            condition.shape = (chars "rule_set", .string, decide (type = chars "SRC-GEOIP")) := by
          dsimp only at converts
          split at converts
          next =>
            obtain rfl := Option.some.inj converts
            exact .inl (by simp [Condition.shape])
          next =>
            split at converts
            next =>
              obtain rfl := Option.some.inj converts
              exact .inr rfl
            next => cases converts
        have different : chars "GEOIP" ≠ chars "SRC-GEOIP" := by decide
        rcases ip with rfl | rfl <;> rcases either with shape | shape <;> simp [typedShapes, shape, different]
      next =>
        split at converts
        next type' field maximum found =>
          obtain ⟨-, -, rfl⟩ := Option.map_eq_some_iff.mp converts
          obtain rfl : type' = type := by simpa using List.find?_some found
          exact List.mem_append_left _ (List.mem_append_right _ (List.mem_map.mpr ⟨_, List.mem_of_find?_eq_some found, rfl⟩))
        next =>
          obtain ⟨entry, found, rfl⟩ := Option.map_eq_some_iff.mp converts
          obtain rfl : entry.1 = type := by simpa using List.find?_some found
          exact List.mem_append_left _ (List.mem_append_left _ (List.mem_map.mpr ⟨_, List.mem_of_find?_eq_some found, rfl⟩))

theorem shape_mem (converts : singBoxCondition type value = some condition) : condition.shape ∈ shapes :=
  List.mem_map_of_mem (typedShape_mem converts)

theorem shape_of_key : ∀ first ∈ shapes, ∀ second ∈ shapes, Shape.key first = Shape.key second → first = second := by
  decide

end Shapes

section Collecting

structure Collected (conditions : List Condition) (buckets : List (Text × SingBoxRuleBucket)) : Prop where
  distinct : (buckets.map Prod.fst).Nodup
  nonempty : ∀ entry ∈ buckets, entry.2.values ≠ []
  once : ∀ entry ∈ buckets, entry.2.values.Nodup
  sound : ∀ entry ∈ buckets, ∀ value ∈ entry.2.values, ∃ condition ∈ conditions,
    condition.key = entry.1 ∧ condition.shape = entry.2.shape ∧ condition.value = value
  complete : ∀ condition ∈ conditions, ∃ bucket, (condition.key, bucket) ∈ buckets ∧ condition.value ∈ bucket.values

theorem collected_nil : Collected [] [] where
  distinct := List.nodup_nil
  nonempty := by simp
  once := by simp
  sound := by simp
  complete := by simp

def withValue (values : List Text) (value : Text) : List Text := if value ∈ values then values else values ++ [value]

theorem mem_withValue {values : List Text} {value other : Text} : other ∈ withValue values value ↔ other ∈ values ∨ other = value := by
  rw [withValue]
  split
  next there => exact ⟨.inl, fun cases' => cases'.elim id fun same => same ▸ there⟩
  next => rw [List.mem_append, List.mem_singleton]

theorem withValue_ne_nil {values : List Text} (value : Text) : withValue values value ≠ [] :=
  List.ne_nil_of_mem (mem_withValue.mpr (.inr rfl))

theorem nodup_withValue {values : List Text} (value : Text) (once : values.Nodup) : (withValue values value).Nodup := by
  rw [withValue]
  split
  next => exact once
  next absent => exact List.Nodup.append once (List.nodup_singleton value) (by simpa using absent)

variable {conditions : List Condition} {condition : Condition} {s : Appending}

theorem buckets_add (s : Appending) (condition : Condition) :
    (s.add condition).buckets = Keyed.put condition.key
      ⟨condition.field, condition.kind, condition.matchRuleSetSource,
        withValue ((Keyed.find condition.key s.buckets).getD {}).values condition.value⟩ s.buckets := rfl

theorem Collected.earlier (collected : Collected conditions s.buckets) (known : condition.shape ∈ shapes)
    (proper : ∀ condition ∈ conditions, condition.shape ∈ shapes) :
    ((Keyed.find condition.key s.buckets).getD {}).values.Nodup ∧
      ∀ value ∈ ((Keyed.find condition.key s.buckets).getD {}).values, ∃ other ∈ conditions,
        other.key = condition.key ∧ other.shape = condition.shape ∧ other.value = value := by
  cases found : Keyed.find condition.key s.buckets with
  | none => exact ⟨List.nodup_nil, fun value there => absurd there List.not_mem_nil⟩
  | some bucket =>
    have here := Keyed.mem_of_find found
    refine ⟨collected.once _ here, fun value there => ?_⟩
    obtain ⟨other, read, key, -, same⟩ := collected.sound _ here value there
    exact ⟨other, read, key, shape_of_key _ (proper other read) _ known key, same⟩

theorem Collected.add (collected : Collected conditions s.buckets) (known : condition.shape ∈ shapes)
    (proper : ∀ condition ∈ conditions, condition.shape ∈ shapes) :
    Collected (conditions ++ [condition]) (s.add condition).buckets := by
  obtain ⟨once, earlier⟩ := collected.earlier known proper
  rw [buckets_add]
  constructor
  case distinct => exact Keyed.nodup_put collected.distinct
  case nonempty => exact Keyed.forall_put collected.nonempty (withValue_ne_nil _)
  case once => exact Keyed.forall_put collected.once (nodup_withValue _ once)
  case sound =>
    refine Keyed.forall_put (fun entry there value held => ?_) fun value held => ?_
    · obtain ⟨other, read, matches'⟩ := collected.sound entry there value held
      exact ⟨other, List.mem_append_left _ read, matches'⟩
    · rcases mem_withValue.mp held with before | rfl
      · obtain ⟨other, read, matches'⟩ := earlier value before
        exact ⟨other, List.mem_append_left _ read, matches'⟩
      · exact ⟨condition, by simp, rfl, rfl, rfl⟩
  case complete =>
    intro other read
    rw [List.mem_append, List.mem_singleton] at read
    by_cases same : other.key = condition.key
    · refine ⟨_, (Keyed.mem_put collected.distinct).mpr (.inl (Prod.ext same rfl)), mem_withValue.mpr ?_⟩
      rcases read with before | rfl
      · obtain ⟨bucket, there, held⟩ := collected.complete other before
        rw [same] at there
        rw [Keyed.find_of_mem collected.distinct there]
        exact .inl held
      · exact .inr rfl
    · have before := read.resolve_right fun here => same (here ▸ rfl)
      obtain ⟨bucket, there, held⟩ := collected.complete other before
      exact ⟨bucket, (Keyed.mem_put collected.distinct).mpr (.inr ⟨there, same⟩), held⟩

theorem collected_foldl (conditions : List Condition) (proper : ∀ condition ∈ conditions, condition.shape ∈ shapes)
    (empty : s.buckets = []) : Collected conditions (conditions.foldl Appending.add s).buckets := by
  induction conditions using List.reverseRecOn with
  | nil => exact empty ▸ collected_nil
  | append_singleton before last ih =>
    rw [List.forall_mem_append] at proper
    rw [List.foldl_append]
    exact (ih proper.1).add (proper.2 last (by simp)) proper.1

end Collecting

section Emission

inductive Atom where
  | flag
  | number (value : Nat)
  | text (value : Text)
deriving DecidableEq, Repr

def RuleValue.atoms : RuleValue → List Atom
  | .flag => [.flag]
  | .number value => [.number value]
  | .numbers values => values.map .number
  | .texts values => values.map .text

def atomOf : ValueKind → Text → Atom
  | .boolean, _ => .flag
  | .integer, value => .number (parsedInteger value)
  | .string, value => .text value

variable {κ : Type} (reads : Text → Bool → Atom → κ → Bool) (c : κ)

def Condition.applies (condition : Condition) : Bool :=
  reads condition.field condition.matchRuleSetSource (atomOf condition.kind condition.value) c

-- A list stands for its alternatives.
def RouteRule.applies (rule : RouteRule) : Bool := rule.value.atoms.any fun atom => reads rule.field rule.matchRuleSetSource atom c

-- What sing-box takes as the value of a field: a list wherever it takes one value, save for the ip_version.
def TakesLists (accepts : Text → RuleValue → Bool) : Prop :=
  ∀ field value, accepts field value = true ↔ (field = ipVersion → ∀ values, value ≠ .numbers values)

def OneVersion (conditions : List Condition) : Prop :=
  ∀ first ∈ conditions, ∀ second ∈ conditions, first.field = ipVersion → second.field = ipVersion → first.value = second.value

variable {reads c} {conditions : List Condition} {buckets : List (Text × SingBoxRuleBucket)} {bucket : SingBoxRuleBucket}
variable {outbound : Text} {rule : RouteRule} {accepts : Text → RuleValue → Bool}

theorem accepted_iff (takes : TakesLists accepts) (some' : bucket.values ≠ []) :
    accepts bucket.field bucket.value = true ↔
      (bucket.kind = .integer → bucket.field = ipVersion → ∃ value, bucket.values = [value]) := by
  rw [takes]
  obtain ⟨field, kind, source, values⟩ := bucket
  obtain ⟨first, rest, rfl⟩ := List.exists_cons_of_ne_nil some'
  cases kind with
  | string => simp [SingBoxRuleBucket.value]
  | boolean => simp [SingBoxRuleBucket.value]
  | integer => cases rest <;> simp [SingBoxRuleBucket.value]

end Emission

end SubConverter.Generator.SingBox
