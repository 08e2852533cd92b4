import SubConverter.Generator.StashBase
import SubConverter.Parser.Proxy

set_option autoImplicit false

namespace SubConverter.Generator.Remarks

open SubConverter.Parser (ProxyType getProxyTypeName)

section Names

def dashed (remark : Text) : Text := remark.map fun c => if c = '=' then '-' else c

def quoted (remark : Text) : Text := '\x22' :: remark ++ ['\x22']

def cleaned (procComma : Bool) (remark : Text) : Text :=
  if procComma && ',' ∈ dashed remark then quoted (dashed remark) else dashed remark

def processRemark (procComma : Bool) (remark : Text) (usedRemarks : List Text) : Text :=
  Generator.processRemark (cleaned procComma remark) usedRemarks

def prefixed (appendProxyType : Bool) (node : ProxyType × Text) : Text :=
  if appendProxyType then '[' :: getProxyTypeName node.1 ++ chars "] " ++ node.2 else node.2

def nodeNames (procComma appendProxyType : Bool) (nodes : List (ProxyType × Text)) : List Text :=
  nameAll id (fun node used => processRemark procComma (prefixed appendProxyType node) used) nodes []

def Wrapped (name : Text) : Prop := name.head? = some '\x22' ∧ name.getLast? = some '\x22'

-- The remarks that are put in quotes, as they stand between them.
def commaRemarks (appendProxyType : Bool) (nodes : List (ProxyType × Text)) : List Text :=
  (nodes.map fun node => dashed (prefixed appendProxyType node)).filter fun remark => ',' ∈ remark

end Names

section Fields

variable {procComma appendProxyType : Bool} {remark name : Text} {used : List Text}

theorem equals_not_mem_dashed (remark : Text) : '=' ∉ dashed remark := by
  intro there
  obtain ⟨c, -, same⟩ := List.mem_map.mp there
  split at same
  next => exact absurd same (by decide)
  next other => exact other same

theorem equals_not_mem_cleaned (procComma : Bool) (remark : Text) : '=' ∉ cleaned procComma remark := by
  have replaced := equals_not_mem_dashed remark
  unfold cleaned
  split
  next => simp [quoted, replaced]
  next => exact replaced

theorem processRemark_cases (procComma : Bool) (remark : Text) (used : List Text) :
    processRemark procComma remark used = cleaned procComma remark ∨
      ∃ number, processRemark procComma remark used = cleaned procComma remark ++ ' ' :: decimal number :=
  Generator.processRemark_cases

theorem processRemark_not_mem : processRemark procComma remark used ∉ used := Generator.processRemark_not_mem

theorem equals_not_mem_processRemark : '=' ∉ processRemark procComma remark used := by
  have bare := equals_not_mem_cleaned procComma remark
  rcases processRemark_cases procComma remark used with plain | ⟨number, numbered⟩
  · rwa [plain]
  · rw [numbered]
    simp [bare, not_mem_decimal]

theorem wrapped_quoted (remark : Text) : Wrapped (quoted remark) := by
  constructor
  · rfl
  · rw [quoted, List.getLast?_append]
    rfl

theorem not_wrapped_numbered (name : Text) (number : Nat) : ¬ Wrapped (name ++ ' ' :: decimal number) := by
  rintro ⟨-, last⟩
  have inside : '\x22' ∈ ' ' :: decimal number := by
    rw [List.getLast?_append_of_ne_nil _ (List.cons_ne_nil _ _)] at last
    exact List.mem_of_getLast? last
  rcases List.mem_cons.mp inside with blank | digit
  · exact absurd blank (by decide)
  · exact not_mem_decimal (by decide) digit

theorem comma_mem_quoted : ',' ∈ quoted remark ↔ ',' ∈ remark := by simp [quoted]

theorem quoted_injective : Function.Injective quoted := by
  intro first second same
  simpa [quoted] using same

end Fields

section Runs

variable {appendProxyType : Bool} {used seen : List Text} {remark : Text}

def Recorded (used seen : List Text) : Prop := ∀ remark, ',' ∈ remark → (quoted remark ∈ used ↔ remark ∈ seen)

theorem comma_not_mem_processRemark (bare : ',' ∉ dashed remark) : ',' ∉ processRemark true remark used := by
  have same : cleaned true remark = dashed remark := by simp [cleaned, bare]
  rcases processRemark_cases true remark used with plain | ⟨number, numbered⟩
  · rwa [plain, same]
  · rw [numbered, same]
    simp [bare, not_mem_decimal]

theorem recorded_bare (recorded : Recorded used seen) {name : Text} (bare : ',' ∉ name) : Recorded (name :: used) seen := by
  intro other comma
  rw [List.mem_cons, recorded other comma]
  refine ⟨fun there => there.resolve_left ?_, .inr⟩
  rintro rfl
  exact bare (comma_mem_quoted.mpr comma)

theorem recorded_quoted (recorded : Recorded used seen) (remark : Text) :
    Recorded (quoted remark :: used) (remark :: seen) := by
  intro other comma
  rw [List.mem_cons, List.mem_cons, recorded other comma, quoted_injective.eq_iff]

theorem processRemark_comma (recorded : Recorded used seen) (comma : ',' ∈ dashed remark) :
    if dashed remark ∈ seen then ¬ Wrapped (processRemark true remark used) ∧ ',' ∈ processRemark true remark used
    else processRemark true remark used = quoted (dashed remark) := by
  have same : cleaned true remark = quoted (dashed remark) := by simp [cleaned, comma]
  split
  next again =>
    rcases processRemark_cases true remark used with plain | ⟨number, numbered⟩
    · refine absurd ?_ (@processRemark_not_mem true remark used)
      rw [plain, same]
      exact (recorded _ comma).mpr again
    · rw [numbered, same]
      exact ⟨not_wrapped_numbered _ _, List.mem_append_left _ (comma_mem_quoted.mpr comma)⟩
  next first =>
    rw [processRemark, same]
    exact Generator.processRemark_of_not_mem fun there => first ((recorded _ comma).mp there)

theorem forall_wrapped_iff (recorded : Recorded used seen) (nodes : List (ProxyType × Text)) :
    (∀ name ∈ nameAll id (fun node used => processRemark true (prefixed appendProxyType node) used) nodes used,
        ',' ∈ name → Wrapped name) ↔
      (commaRemarks appendProxyType nodes).Nodup ∧ ∀ remark ∈ commaRemarks appendProxyType nodes, remark ∉ seen := by
  induction nodes generalizing used seen with
  | nil => simp [nameAll, commaRemarks]
  | cons node rest ih =>
    rw [nameAll, List.forall_mem_cons]
    by_cases comma : ',' ∈ dashed (prefixed appendProxyType node)
    · have listed : commaRemarks appendProxyType (node :: rest) =
          dashed (prefixed appendProxyType node) :: commaRemarks appendProxyType rest := by
        simp [commaRemarks, comma]
      have named := processRemark_comma recorded comma
      rw [listed, List.nodup_cons, List.forall_mem_cons]
      split at named
      next again => exact ⟨fun all => absurd (all.1 named.2) named.1, fun all => absurd again all.2.1⟩
      next first =>
        rw [named, id, ih (recorded_quoted recorded _)]
        constructor
        · rintro ⟨-, distinct, apart⟩
          refine ⟨⟨fun there => apart _ there List.mem_cons_self, distinct⟩, first, fun other there inside => ?_⟩
          exact apart other there (List.mem_cons_of_mem _ inside)
        · rintro ⟨⟨new, distinct⟩, -, apart⟩
          refine ⟨fun _ => wrapped_quoted _, distinct, fun other there inside => ?_⟩
          rcases List.mem_cons.mp inside with rfl | inside
          · exact new there
          · exact apart other there inside
    · have listed : commaRemarks appendProxyType (node :: rest) = commaRemarks appendProxyType rest := by
        simp [commaRemarks, comma]
      have bare := @comma_not_mem_processRemark used _ comma
      rw [listed, id, ih (recorded_bare recorded bare)]
      exact ⟨fun all => all.2, fun all => ⟨fun there => absurd there bare, all⟩⟩

theorem node_names_iff (procComma appendProxyType : Bool) (nodes : List (ProxyType × Text)) :
    (∀ remark used, processRemark procComma remark used ∉ used) ∧
    ((nodeNames procComma appendProxyType nodes).Nodup ∧
        (∀ name ∈ nodeNames procComma appendProxyType nodes, '=' ∉ name) ∧
        (procComma = true → ∀ name ∈ nodeNames procComma appendProxyType nodes, ',' ∈ name → Wrapped name) ↔
      (procComma = true → (commaRemarks appendProxyType nodes).Nodup)) := by
  have distinct : (nodeNames procComma appendProxyType nodes).Nodup := by
    have keys := (@nameAll_nodup _ Text Text id (fun node used => processRemark procComma (prefixed appendProxyType node) used)
      (fun _ _ => processRemark_not_mem) nodes []).1
    rwa [List.map_id] at keys
  have bare : ∀ name ∈ nodeNames procComma appendProxyType nodes, '=' ∉ name :=
    forall_mem_nameAll (P := fun name => '=' ∉ name) (fun _ _ => equals_not_mem_processRemark) nodes []
  refine ⟨fun _ _ => processRemark_not_mem, ?_⟩
  rw [and_iff_right distinct, and_iff_right bare]
  cases procComma with
  | false => simp
  | true =>
    have none : Recorded [] [] := by simp [Recorded]
    have wrapped := @forall_wrapped_iff appendProxyType [] [] none nodes
    simp only [List.not_mem_nil, not_false_eq_true, implies_true, and_true] at wrapped
    simpa [nodeNames] using wrapped

theorem numbered_behind_quote : ¬ ∀ name ∈ nodeNames true false [(.trojan, chars "a,b"), (.snell, chars "a,b")],
    ',' ∈ name → Wrapped name := by
  have names : nodeNames true false [(.trojan, chars "a,b"), (.snell, chars "a,b")] =
      [chars "\"a,b\"", chars "\"a,b\" 2"] := by decide
  rw [names]
  simp [Wrapped, chars]

end Runs

end SubConverter.Generator.Remarks
