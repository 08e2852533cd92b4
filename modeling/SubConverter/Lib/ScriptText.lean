import SubConverter.Lib.Delimited

set_option autoImplicit false

namespace SubConverter.ScriptText

/-! Scripts whose string literals stand in single or double quotes, read character by character. -/

section Reading

def isQuote (c : Char) : Bool := c = '"' || c = '\''

def isWordChar (c : Char) : Bool := c.isAlphanum || c = '_'

def hexValue (c : Char) : Option Nat :=
  if c.isDigit then some (c.toNat - 48)
  else if 'a' ≤ c ∧ c ≤ 'f' then some (c.toNat - 87)
  else if 'A' ≤ c ∧ c ≤ 'F' then some (c.toNat - 55)
  else none

inductive Token where
  | code (c : Char)
  | literal (value : Text)
deriving DecidableEq, Repr

inductive Place where
  | code (previous : Option Char)
  | opened (quote : Char)
  | empty (quote : Char)
  | body (quote : Char) (value : Text)
  | escape (quote : Char) (value : Text)
  | hex (quote : Char) (value : Text)
  | hexLow (quote : Char) (value : Text) (high : Nat)
  | comment
deriving DecidableEq, Repr

-- A quote right behind a word would give the literal a prefix.
def codeStep (previous : Option Char) (c : Char) : Option (Place × List Token) :=
  if isQuote c then if previous.any isWordChar then none else some (.opened c, [])
  else if c = '#' then some (.comment, [])
  else if c = '\\' then none
  else some (.code (some c), [.code c])

def bodyStep (quote : Char) (value : Text) (c : Char) : Option (Place × List Token) :=
  if c = quote then some (.code (some quote), [.literal value])
  else if c = '\\' then some (.escape quote value, [])
  else if c = '\n' ∨ c = '\r' then none
  else some (.body quote (value ++ [c]), [])

def simpleEscape (c : Char) : Option Char :=
  if c = '\\' ∨ isQuote c = true then some c
  else if c = 'n' then some '\n'
  else if c = 'r' then some '\r'
  else if c = 't' then some '\t'
  else none

def step : Place → Char → Option (Place × List Token)
  | .code previous, c => codeStep previous c
  | .opened quote, c => if c = quote then some (.empty quote, [.literal []]) else bodyStep quote [] c
  | .empty quote, c => if c = quote then none else codeStep (some quote) c
  | .body quote value, c => bodyStep quote value c
  | .escape quote value, c =>
    if c = 'x' then some (.hex quote value, []) else (simpleEscape c).map fun plain => (.body quote (value ++ [plain]), [])
  | .hex quote value, c => (hexValue c).map fun high => (.hexLow quote value high, [])
  | .hexLow quote value high, c => (hexValue c).map fun low => (.body quote (value ++ [Char.ofNat (high * 16 + low)]), [])
  | .comment, c => if c = '\n' then some (.code (some c), [.code c]) else some (.comment, [])

def run : Place → Text → Option (Place × List Token)
  | place, [] => some (place, [])
  | place, c :: rest => do
    let (next, tokens) ← step place c
    let (last, more) ← run next rest
    return (last, tokens ++ more)

def rests : Place → Bool
  | .code _ => true
  | .empty quote => isQuote quote
  | _ => false

def readScript (text : Text) : Option (List Token) := do
  let (last, tokens) ← run (.code none) text
  if rests last then some tokens else none

theorem run_cons {place next : Place} {c : Char} {tokens : List Token} (here : step place c = some (next, tokens)) (rest : Text) :
    run place (c :: rest) = (run next rest).map fun last => (last.1, tokens ++ last.2) := by
  simp only [run, here, Option.bind_eq_bind, Option.bind_some]
  cases run next rest <;> rfl

theorem run_silent {place next : Place} {c : Char} (here : step place c = some (next, [])) (rest : Text) :
    run place (c :: rest) = run next rest := by
  rw [run_cons here]
  cases run next rest <;> rfl

theorem run_append {place next last : Place} {first second : Text} {tokens more : List Token}
    (here : run place first = some (next, tokens)) (there : run next second = some (last, more)) :
    run place (first ++ second) = some (last, tokens ++ more) := by
  induction first generalizing place tokens with
  | nil =>
    cases here
    exact there
  | cons c first ih =>
    rw [run] at here
    obtain ⟨⟨middle, given⟩, stepped, here⟩ := Option.bind_eq_some_iff.mp here
    obtain ⟨⟨reached, later⟩, walked, same⟩ := Option.bind_eq_some_iff.mp here
    cases same
    rw [List.cons_append, run_cons stepped, ih walked, Option.map_some, List.append_assoc]

end Reading

section Literals

inductive Spells : Text → Text → Prop where
  | nil : Spells [] []
  | plain {c : Char} {body value : Text} (kept : isQuote c = false ∧ c ≠ '\\' ∧ c ≠ '\n' ∧ c ≠ '\r') (rest : Spells body value) :
    Spells (c :: body) (c :: value)
  | simple {c plain : Char} {body value : Text} (escape : simpleEscape c = some plain) (rest : Spells body value) :
    Spells ('\\' :: c :: body) (plain :: value)
  | hex {high low : Char} {x y : Nat} {body value : Text} (first : hexValue high = some x) (second : hexValue low = some y)
    (rest : Spells body value) : Spells ('\\' :: 'x' :: high :: low :: body) (Char.ofNat (x * 16 + y) :: value)

variable {body value more text : Text} {quote : Char}

theorem Spells.append (first : Spells body value) {last lastValue : Text} (second : Spells last lastValue) :
    Spells (body ++ last) (value ++ lastValue) := by
  induction first with
  | nil => exact second
  | plain kept _ ih => exact .plain kept ih
  | simple escape _ ih => exact .simple escape ih
  | hex high low _ ih => exact .hex high low ih

theorem Spells.of_plain (kept : text.all fun c => !isQuote c && c ≠ '\\' && c ≠ '\n' && c ≠ '\r') : Spells text text := by
  induction text with
  | nil => exact .nil
  | cons c text ih =>
    rw [List.all_cons, Bool.and_eq_true] at kept
    refine .plain ?_ (ih kept.2)
    simpa [and_assoc] using kept.1

theorem simpleEscape_x : simpleEscape 'x' = none := by decide

theorem backslash_ne (quoted : isQuote quote = true) : '\\' ≠ quote := by
  rintro rfl
  exact absurd quoted (by decide)

theorem Spells.head_ne (spells : Spells body value) (quoted : isQuote quote = true) : ∀ c ∈ body.head?, c ≠ quote := by
  intro c first
  cases spells with
  | nil => cases first
  | plain kept =>
    cases first
    rintro rfl
    exact absurd (kept.1.symm.trans quoted) (by decide)
  | simple | hex =>
    cases first
    exact backslash_ne quoted

theorem run_body (spells : Spells body value) (quoted : isQuote quote = true) (read : Text) :
    run (.body quote read) body = some (.body quote (read ++ value), []) := by
  induction spells generalizing read with
  | nil => rw [run, List.append_nil]
  | @plain c body value kept rest ih =>
    have other : c ≠ quote := (Spells.plain kept rest).head_ne quoted c rfl
    have stepped : step (.body quote read) c = some (.body quote (read ++ [c]), []) := by simp [step, bodyStep, other, kept]
    rw [run_silent stepped, ih, List.append_assoc, List.singleton_append]
  | @simple c plain body value escape _ ih =>
    have opened : step (.body quote read) '\\' = some (.escape quote read, []) := by
      simp [step, bodyStep, backslash_ne quoted]
    have letter : c ≠ 'x' := by
      rintro rfl
      exact absurd (escape.symm.trans simpleEscape_x) (by simp)
    have closed : step (.escape quote read) c = some (.body quote (read ++ [plain]), []) := by simp [step, letter, escape]
    rw [run_silent opened, run_silent closed, ih, List.append_assoc, List.singleton_append]
  | @hex high low x y body value first second _ ih =>
    have opened : step (.body quote read) '\\' = some (.escape quote read, []) := by
      simp [step, bodyStep, backslash_ne quoted]
    have marked : step (.escape quote read) 'x' = some (.hex quote read, []) := by simp [step]
    have upper : step (.hex quote read) high = some (.hexLow quote read x, []) := by simp [step, first]
    have lower : step (.hexLow quote read x) low = some (.body quote (read ++ [Char.ofNat (x * 16 + y)]), []) := by
      simp [step, second]
    rw [run_silent opened, run_silent marked, run_silent upper, run_silent lower, ih, List.append_assoc, List.singleton_append]

theorem run_literal (spells : Spells body value) (quoted : isQuote quote = true) :
    ∃ place, rests place = true ∧ run (.opened quote) (body ++ [quote]) = some (place, [.literal value]) := by
  cases body with
  | nil =>
    cases spells
    exact ⟨.empty quote, quoted, by simp [run, step]⟩
  | cons c body =>
    have other : c ≠ quote := spells.head_ne quoted c rfl
    have same : step (.opened quote) c = step (.body quote []) c := by simp [step, other]
    have whole := run_body spells quoted []
    have closed : run (.body quote ([] ++ value)) [quote] = some (.code (some quote), [.literal value]) := by
      simp [run, step, bodyStep]
    refine ⟨.code (some quote), rfl, ?_⟩
    have joined := run_append whole closed
    rw [List.cons_append, run] at joined ⊢
    rw [same]
    exact joined

end Literals

section Scripts

structure Part where
  front : Text
  quote : Char
  body : Text
  value : Text

def Part.text (part : Part) : Text := part.front ++ part.quote :: (part.body ++ [part.quote])

def Part.tokens (part : Part) : List Token := part.front.map .code ++ [.literal part.value]

def isCodeChar (c : Char) : Bool := !isQuote c && c ≠ '#' && c ≠ '\\'

structure Part.Sound (part : Part) : Prop where
  code : ∀ c ∈ part.front, isCodeChar c = true
  apart : ∃ c, part.front.getLast? = some c ∧ isWordChar c = false
  quoted : isQuote part.quote = true
  spells : Spells part.body part.value

structure Composed where
  parts : List Part
  ending : Text

def Composed.text (script : Composed) : Text := script.parts.flatMap Part.text ++ script.ending

def Composed.tokens (script : Composed) : List Token := script.parts.flatMap Part.tokens ++ script.ending.map .code

structure Composed.Sound (script : Composed) : Prop where
  parts : ∀ part ∈ script.parts, part.Sound
  ending : ∀ c ∈ script.ending, isCodeChar c = true

def Composed.code (text : Text) : Composed := ⟨[], text⟩

def Composed.literal (front : Text) (quote : Char) (body value : Text) : Composed := ⟨[⟨front, quote, body, value⟩], []⟩

def Composed.andThen (first second : Composed) : Composed :=
  match second.parts with
  | [] => ⟨first.parts, first.ending ++ second.ending⟩
  | part :: rest => ⟨first.parts ++ { part with front := first.ending ++ part.front } :: rest, second.ending⟩

def Composed.joined (scripts : List Composed) : Composed := scripts.foldr Composed.andThen (Composed.code [])

variable {first second script : Composed} {place : Place} {part : Part} {front body value : Text} {quote : Char}

@[simp] theorem Composed.text_andThen (first second : Composed) : (first.andThen second).text = first.text ++ second.text := by
  obtain ⟨parts, ending⟩ := second
  cases parts with
  | nil => simp [andThen, text]
  | cons part rest => simp [andThen, text, Part.text]

@[simp] theorem Composed.text_code (plain : Text) : (Composed.code plain).text = plain := List.nil_append _

@[simp] theorem Composed.text_literal (front : Text) (quote : Char) (body value : Text) :
    (Composed.literal front quote body value).text = front ++ quote :: (body ++ [quote]) := by
  simp [literal, text, Part.text]

@[simp] theorem Composed.text_joined (scripts : List Composed) : (Composed.joined scripts).text = scripts.flatMap Composed.text := by
  induction scripts with
  | nil => rfl
  | cons script rest ih => rw [joined, List.foldr_cons, text_andThen, List.flatMap_cons, ← ih, joined]

theorem Composed.sound_code (plain : front.all isCodeChar) : (Composed.code front).Sound :=
  ⟨fun _ none => absurd none List.not_mem_nil, List.all_eq_true.mp plain⟩

theorem Composed.sound_literal (code : front.all isCodeChar) (apart : front.getLast?.any fun c => !isWordChar c)
    (quoted : isQuote quote = true) (spells : Spells body value) : (Composed.literal front quote body value).Sound := by
  refine ⟨fun part there => ?_, fun _ none => absurd none List.not_mem_nil⟩
  obtain rfl := List.mem_singleton.mp there
  refine ⟨List.all_eq_true.mp code, ?_, quoted, spells⟩
  obtain ⟨c, last, other⟩ := (Option.any_eq_true _ _).mp apart
  exact ⟨c, last, by simpa using other⟩

theorem Part.Sound.after (sound : part.Sound) {plain : Text} (code : ∀ c ∈ plain, isCodeChar c = true) :
    Part.Sound { part with front := plain ++ part.front } := by
  obtain ⟨c, last, other⟩ := sound.apart
  refine ⟨fun d there => (List.mem_append.mp there).elim (code d) (sound.code d), ⟨c, ?_, other⟩, sound.quoted, sound.spells⟩
  rw [List.getLast?_append, last]
  rfl

theorem Composed.Sound.andThen (left : first.Sound) (right : second.Sound) : (first.andThen second).Sound := by
  obtain ⟨parts, ending⟩ := second
  cases parts with
  | nil => exact ⟨left.parts, fun c there => (List.mem_append.mp there).elim (left.ending c) (right.ending c)⟩
  | cons part rest =>
    obtain ⟨front, others⟩ := List.forall_mem_cons.mp right.parts
    refine ⟨fun other there => ?_, right.ending⟩
    rcases List.mem_append.mp there with before | behind
    · exact left.parts other before
    · rcases List.mem_cons.mp behind with rfl | later
      · exact front.after left.ending
      · exact others other later

theorem Composed.sound_joined {scripts : List Composed} (sound : ∀ script ∈ scripts, script.Sound) : (Composed.joined scripts).Sound := by
  induction scripts with
  | nil => exact sound_code rfl
  | cons script rest ih =>
    obtain ⟨here, later⟩ := List.forall_mem_cons.mp sound
    exact here.andThen (ih later)

theorem run_code (resting : rests place = true) (code : ∀ c ∈ front, isCodeChar c = true) :
    ∃ next, rests next = true ∧ run place front = some (next, front.map .code) ∧
      ∀ c ∈ front.getLast?, next = .code (some c) := by
  induction front generalizing place with
  | nil => exact ⟨place, resting, rfl, by simp⟩
  | cons c front ih =>
    obtain ⟨here, later⟩ := List.forall_mem_cons.mp code
    simp only [isCodeChar, Bool.and_eq_true, Bool.not_eq_true', decide_eq_true_eq, ne_eq] at here
    obtain ⟨⟨unquoted, comment⟩, slash⟩ := here
    have stepped : step place c = some (.code (some c), [.code c]) := by
      have plain (previous : Option Char) : codeStep previous c = some (.code (some c), [.code c]) := by
        simp [codeStep, unquoted, comment, slash]
      cases place with
      | code previous => exact plain previous
      | empty quote =>
        have other : c ≠ quote := by
          rintro rfl
          rw [rests, unquoted] at resting
          cases resting
        rw [step, if_neg other, plain]
      | _ => cases resting
    obtain ⟨next, rested, walked, last⟩ := @ih (.code (some c)) rfl later
    refine ⟨next, rested, by rw [run_cons stepped, walked]; rfl, fun d ends => ?_⟩
    cases front with
    | nil =>
      cases walked
      cases ends
      rfl
    | cons e front => exact last d (by rwa [List.getLast?_cons_cons] at ends)

theorem run_part (resting : rests place = true) (sound : part.Sound) :
    ∃ next, rests next = true ∧ run place part.text = some (next, part.tokens) := by
  obtain ⟨c, last, other⟩ := sound.apart
  obtain ⟨middle, -, walked, ends⟩ := run_code resting sound.code
  obtain rfl := ends c last
  obtain ⟨next, rested, literal⟩ := run_literal sound.spells sound.quoted
  have opened : step (.code (some c)) part.quote = some (.opened part.quote, []) := by
    simp [step, codeStep, sound.quoted, other]
  exact ⟨next, rested, run_append walked ((run_silent opened _).trans literal)⟩

theorem run_parts {parts : List Part} (resting : rests place = true) (sound : ∀ part ∈ parts, part.Sound) :
    ∃ next, rests next = true ∧ run place (parts.flatMap Part.text) = some (next, parts.flatMap Part.tokens) := by
  induction parts generalizing place with
  | nil => exact ⟨place, resting, rfl⟩
  | cons part parts ih =>
    obtain ⟨here, later⟩ := List.forall_mem_cons.mp sound
    obtain ⟨middle, rested, walked⟩ := run_part resting here
    obtain ⟨next, rested, more⟩ := ih rested later
    exact ⟨next, rested, run_append walked more⟩

theorem readScript_text (sound : script.Sound) : readScript script.text = some script.tokens := by
  obtain ⟨middle, rested, walked⟩ := @run_parts (.code none) script.parts rfl sound.parts
  obtain ⟨last, rested, ended, -⟩ := run_code rested sound.ending
  rw [readScript, Composed.text, run_append walked ended]
  exact if_pos rested

end Scripts

end SubConverter.ScriptText
