import SubConverter.Lib.ScriptText
import SubConverter.Generator.ClashScript
import SubConverter.Generator.StashRules

set_option autoImplicit false

namespace SubConverter.Generator.ClashScript

open ScriptText
open Handler (split startsWith trim)

section Escapes

theorem hexValue_hexDigit : ∀ digit < 16, hexValue (hexDigits.getD digit '0') = some digit := by decide

theorem escapeChar_control {c : Char} (control : c.toNat < 0x20) (line : c ≠ '\n') (back : c ≠ '\r') (tab : c ≠ '\t') :
    escapeChar c = ['\\', 'x', hexDigits.getD (c.toNat / 16) '0', hexDigits.getD (c.toNat % 16) '0'] := by
  have other (d : Char) (printed : 0x20 ≤ d.toNat) : c ≠ d := by
    rintro rfl
    omega
  rw [escapeChar, if_neg (other _ (by decide)), if_neg (other _ (by decide)), if_neg (other _ (by decide)), if_neg line, if_neg back,
    if_neg tab, if_pos control, Nat.shiftRight_eq_div_pow, Nat.and_two_pow_sub_one_eq_mod c.toNat 4]

theorem spells_escapeChar (c : Char) : Spells (escapeChar c) [c] := by
  by_cases short : c = '\\' ∨ c = '"' ∨ c = '\'' ∨ c = '\n' ∨ c = '\r' ∨ c = '\t'
  · rcases short with rfl | rfl | rfl | rfl | rfl | rfl <;> exact .simple (by decide) .nil
  simp only [not_or] at short
  obtain ⟨slash, double, single, line, back, tab⟩ := short
  by_cases control : c.toNat < 0x20
  · have digits := Spells.hex (hexValue_hexDigit (c.toNat / 16) (by omega)) (hexValue_hexDigit (c.toNat % 16) (by omega)) .nil
    rw [Nat.div_add_mod', Char.ofNat_toNat] at digits
    rwa [escapeChar_control control line back tab]
  · rw [escapeChar, if_neg slash, if_neg double, if_neg single, if_neg line, if_neg back, if_neg tab, if_neg control]
    exact .plain ⟨by simp [isQuote, double, single], slash, line, back⟩ .nil

theorem spells_pythonStringEscape (value : Text) : Spells (pythonStringEscape value) value := by
  induction value with
  | nil => exact .nil
  | cons c value ih => exact (spells_escapeChar c).append ih

theorem printed_hexDigit : ∀ digit < 16, 0x20 ≤ (hexDigits.getD digit '0').toNat := by decide

theorem printed_escapeChar (c : Char) : ∀ d ∈ escapeChar c, 0x20 ≤ d.toNat := by
  by_cases short : c = '\\' ∨ c = '"' ∨ c = '\'' ∨ c = '\n' ∨ c = '\r' ∨ c = '\t'
  · rcases short with rfl | rfl | rfl | rfl | rfl | rfl <;> simp [escapeChar]
  simp only [not_or] at short
  obtain ⟨slash, double, single, line, back, tab⟩ := short
  by_cases control : c.toNat < 0x20
  · rw [escapeChar_control control line back tab]
    simp only [List.forall_mem_cons]
    exact ⟨by decide, by decide, printed_hexDigit _ (by omega), printed_hexDigit _ (by omega), by simp⟩
  · rw [escapeChar, if_neg slash, if_neg double, if_neg single, if_neg line, if_neg back, if_neg tab, if_neg control]
    simpa using control

theorem printed_pythonStringEscape (value : Text) : ∀ c ∈ pythonStringEscape value, 0x20 ≤ c.toNat := by
  intro c there
  obtain ⟨d, -, inside⟩ := List.mem_flatMap.mp there
  exact printed_escapeChar d c inside

end Escapes

section Skeleton

def escaped (front : Text) (quote : Char) (before value after : Text) : Composed :=
  .literal front quote (before ++ pythonStringEscape value ++ after) (before ++ value ++ after)

def isPlain (text : Text) : Bool := text.all fun c => !isQuote c && c ≠ '\\' && c ≠ '\n' && c ≠ '\r'

theorem sound_escaped {front before after : Text} {quote : Char} (value : Text)
    (fixed : (front.all isCodeChar && (front.getLast?.any fun c => !isWordChar c) && isQuote quote && isPlain before && isPlain after) = true) :
    (escaped front quote before value after).Sound := by
  simp only [Bool.and_eq_true] at fixed
  obtain ⟨⟨⟨⟨code, apart⟩, quoted⟩, plainBefore⟩, plainAfter⟩ := fixed
  exact Composed.sound_literal code apart quoted
    (((Spells.of_plain plainBefore).append (spells_pythonStringEscape value)).append (Spells.of_plain plainAfter))

def listed {α : Type} (entry : Text → α → Composed) (front : Text) : List α → Composed
  | [] => .code front
  | item :: rest => (entry front item).andThen (.joined (rest.map (entry [','])))

theorem sound_listed {α : Type} {entry : Text → α → Composed} {front : Text} (code : front.all isCodeChar)
    (first : ∀ item, (entry front item).Sound) (others : ∀ item, (entry [','] item).Sound) (items : List α) :
    (listed entry front items).Sound := by
  cases items with
  | nil => exact Composed.sound_code code
  | cons item rest =>
    refine (first item).andThen (Composed.sound_joined fun script there => ?_)
    obtain ⟨other, -, rfl⟩ := List.mem_map.mp there
    exact others other

structure RuleData where
  hasDomain : Bool
  hasIpcidr : Bool
  name : Text
  group : Text
  keywords : List Text
  original : Bool

structure ScriptData where
  rules : List RuleData
  countries : List (Text × Text)
  matchGroup : Text

def commaText : List Text → Text
  | [] => []
  | first :: rest => first ++ rest.flatMap (',' :: ·)

def keywordText (keywords : List Text) : Text := commaText (keywords.map pythonStringLiteral)

def countryText (pair : Text × Text) : Text := pythonStringLiteral pair.1 ++ chars ": " ++ pythonStringLiteral pair.2

def RuleData.rendered (rule : RuleData) : ScriptRule where
  hasDomain := rule.hasDomain
  hasIpcidr := rule.hasIpcidr
  name := pythonStringEscape rule.name
  group := pythonStringEscape rule.group
  keyword := keywordText rule.keywords
  original := rule.original

def matchScript (rule : RuleData) (suffix kind : Text) : Composed :=
  .joined
    [escaped (chars "  if ctx.rule_providers[") '"' [] rule.name suffix,
      escaped (chars "].match(md):\n    ctx.log(") '\'' (chars "[Script] matched ") rule.group (kind ++ chars " rule"),
      escaped (chars ")\n    return ") '"' [] rule.group []]

def keywordScript (rule : RuleData) : Composed :=
  .joined
    [listed (fun front keyword => escaped front '"' [] keyword []) (chars "  keywords = [") rule.keywords,
      escaped (chars "]\n  for keyword in keywords:\n    if keyword in host:\n      ctx.log(") '\'' (chars "[Script] matched ") rule.group
        (chars " DOMAIN-KEYWORD rule"),
      escaped (chars ")\n      return ") '"' [] rule.group []]

def groupScript (rule : RuleData) : Composed :=
  if (!rule.hasDomain && !rule.hasIpcidr) || rule.original then matchScript rule [] []
  else
    .joined
      [if rule.hasDomain then matchScript rule (chars "_domain") (chars " DOMAIN") else .code [], .code ['\n'],
        if showsKeywords rule.rendered then keywordScript rule else .code [], .code ['\n'],
        if rule.hasIpcidr then matchScript rule (chars "_ipcidr") (chars " IP") else .code []]

def countryScript (front : Text) (pair : Text × Text) : Composed :=
  (escaped front '"' [] pair.1 []).andThen (escaped (chars ": ") '"' [] pair.2 [])

def geoipScript (countries : List (Text × Text)) (matchGroup : Text) : Composed :=
  .joined
    [listed countryScript (chars "  geoips = \x7b ") countries, escaped (chars " \x7d\n  ip = md[") '"' (chars "dst_ip") [] [],
      escaped (chars "]\n  if ip == ") '"' [] [] [],
      escaped (chars ":\n    ip = ctx.resolve_ip(host)\n    if ip == ") '"' [] [] [],
      escaped (chars ":\n      ctx.log(") '\'' (chars "[Script] dns lookup error use ") matchGroup [],
      escaped (chars ")\n      return ") '"' [] matchGroup [],
      .code (chars "\n  for key in geoips:\n    if ctx.geoip(ip) == key:\n      return geoips[key]")]

def ScriptData.script (data : ScriptData) : Composed :=
  .joined
    [escaped (chars "def main(ctx, md):\n  host = md[") '"' (chars "host") [] [], .code (chars "]\n"),
      .joined (data.rules.map fun rule => .joined [.code ['\n'], groupScript rule, .code ['\n']]), .code (chars "\n\n"),
      if data.countries = [] then .code [] else geoipScript data.countries data.matchGroup,
      escaped (chars "\n  return ") '"' [] data.matchGroup []]

variable (rule : RuleData) (data : ScriptData)

theorem sound_matchScript {suffix kind : Text} (plain : (isPlain suffix && isPlain (kind ++ chars " rule")) = true) :
    (matchScript rule suffix kind).Sound := by
  rw [Bool.and_eq_true] at plain
  refine Composed.sound_joined ?_
  simp only [List.forall_mem_cons]
  refine ⟨sound_escaped _ ?_, sound_escaped _ ?_, sound_escaped _ (by decide), by simp⟩
  · rw [plain.1]
    decide
  · rw [plain.2]
    decide

theorem sound_keywordScript : (keywordScript rule).Sound := by
  refine Composed.sound_joined ?_
  simp only [List.forall_mem_cons]
  refine ⟨sound_listed ?_ ?_ ?_ _, sound_escaped _ (by decide), sound_escaped _ (by decide), by simp⟩
  · decide
  · exact fun keyword => sound_escaped keyword (by decide)
  · exact fun keyword => sound_escaped keyword (by decide)

theorem sound_groupScript : (groupScript rule).Sound := by
  have nothing : (Composed.code []).Sound := Composed.sound_code (by decide)
  have line : (Composed.code ['\n']).Sound := Composed.sound_code (by decide)
  rw [groupScript]
  split
  · exact sound_matchScript rule (by decide)
  · refine Composed.sound_joined ?_
    simp only [List.forall_mem_cons]
    refine ⟨?_, line, ?_, line, ?_, by simp⟩
    · split
      · exact sound_matchScript rule (by decide)
      · exact nothing
    · split
      · exact sound_keywordScript rule
      · exact nothing
    · split
      · exact sound_matchScript rule (by decide)
      · exact nothing

theorem sound_countryScript {front : Text} (fixed : (front.all isCodeChar && front.getLast?.any fun c => !isWordChar c) = true)
    (pair : Text × Text) : (countryScript front pair).Sound := by
  refine (sound_escaped _ ?_).andThen (sound_escaped _ (by decide))
  rw [fixed]
  decide

theorem sound_geoipScript (countries : List (Text × Text)) (matchGroup : Text) : (geoipScript countries matchGroup).Sound := by
  refine Composed.sound_joined ?_
  simp only [List.forall_mem_cons]
  exact ⟨sound_listed (by decide) (sound_countryScript (by decide)) (sound_countryScript (by decide)) _, sound_escaped _ (by decide),
    sound_escaped _ (by decide), sound_escaped _ (by decide), sound_escaped _ (by decide), sound_escaped _ (by decide),
    Composed.sound_code (by decide), by simp⟩

theorem ScriptData.sound_script : data.script.Sound := by
  refine Composed.sound_joined ?_
  simp only [List.forall_mem_cons]
  refine ⟨sound_escaped _ (by decide), Composed.sound_code (by decide), Composed.sound_joined ?_, Composed.sound_code (by decide), ?_,
    sound_escaped _ (by decide), by simp⟩
  · intro script there
    obtain ⟨rule, -, rfl⟩ := List.mem_map.mp there
    refine Composed.sound_joined ?_
    simp only [List.forall_mem_cons]
    exact ⟨Composed.sound_code (by decide), sound_groupScript rule, Composed.sound_code (by decide), by simp⟩
  · split
    · exact Composed.sound_code (by decide)
    · exact sound_geoipScript _ _

theorem text_escaped (front : Text) (quote : Char) (before value after : Text) :
    (escaped front quote before value after).text = front ++ quote :: (before ++ (pythonStringEscape value ++ (after ++ [quote]))) := by
  simp [escaped]

theorem text_matchScript (suffix kind : Text) : (matchScript rule suffix kind).text = matchTemplate rule.rendered suffix kind := by
  have opening : chars "  if ctx.rule_providers[\"" = chars "  if ctx.rule_providers[" ++ ['"'] := by decide
  have logging : chars "\"].match(md):\n    ctx.log('[Script] matched " =
      '"' :: (chars "].match(md):\n    ctx.log(" ++ '\'' :: chars "[Script] matched ") := by decide
  have closing : chars " rule')\n    return \"" = chars " rule" ++ '\'' :: (chars ")\n    return " ++ ['"']) := by decide
  simp [matchScript, matchTemplate, text_escaped, RuleData.rendered, opening, logging, closing]

theorem text_listed {α : Type} {entry : Text → α → Composed} {shown : α → Text}
    (each : ∀ front item, (entry front item).text = front ++ shown item) (front : Text) (items : List α) :
    (listed entry front items).text = front ++ commaText (items.map shown) := by
  cases items with
  | nil => simp [listed, commaText]
  | cons item rest => simp [listed, commaText, each, List.flatMap_map]

theorem text_keywordScript : (keywordScript rule).text = clashScriptKeywordTemplate rule.rendered := by
  have logging : chars "      ctx.log('[Script] matched " = chars "      ctx.log(" ++ '\'' :: chars "[Script] matched " := by decide
  have behind : chars "]\n  for keyword in keywords:\n    if keyword in host:\n      ctx.log(" =
      chars "]\n  for keyword in keywords:\n    if keyword in host:\n" ++ chars "      ctx.log(" := by decide
  have closing : chars " DOMAIN-KEYWORD rule')\n      return \"" =
      chars " DOMAIN-KEYWORD rule" ++ '\'' :: (chars ")\n      return " ++ ['"']) := by decide
  have each (front keyword : Text) : (escaped front '"' [] keyword []).text = front ++ pythonStringLiteral keyword := by
    simp [text_escaped, pythonStringLiteral]
  simp [keywordScript, clashScriptKeywordTemplate, text_escaped, text_listed each, RuleData.rendered, keywordText, logging, behind, closing]

theorem text_groupScript : (groupScript rule).text = clashScriptGroupTemplate rule.rendered := by
  have domain : rule.rendered.hasDomain = rule.hasDomain := rfl
  have ipcidr : rule.rendered.hasIpcidr = rule.hasIpcidr := rfl
  have original : rule.rendered.original = rule.original := rfl
  rw [groupScript, clashScriptGroupTemplate, domain, ipcidr, original, apply_ite Composed.text, text_matchScript]
  simp [apply_ite Composed.text, text_matchScript, text_keywordScript]

theorem text_countryScript (front : Text) (pair : Text × Text) : (countryScript front pair).text = front ++ countryText pair := by
  simp [countryScript, countryText, text_escaped, pythonStringLiteral]

theorem text_geoipScript (countries : List (Text × Text)) (matchGroup : Text) :
    (geoipScript countries matchGroup).text = geoipTemplate (commaText (countries.map countryText)) (pythonStringEscape matchGroup) := by
  have address : chars " \x7d\n  ip = md[\"dst_ip\"]\n  if ip == \"\":\n    ip = ctx.resolve_ip(host)\n" ++
      chars "    if ip == \"\":\n      ctx.log('[Script] dns lookup error use " =
      chars " \x7d\n  ip = md[" ++ '"' :: (chars "dst_ip" ++ '"' :: (chars "]\n  if ip == " ++ '"' :: '"' ::
        (chars ":\n    ip = ctx.resolve_ip(host)\n    if ip == " ++ '"' :: '"' ::
          (chars ":\n      ctx.log(" ++ '\'' :: chars "[Script] dns lookup error use ")))) := by decide
  have result : chars "')\n      return \"" = '\'' :: (chars ")\n      return " ++ ['"']) := by decide
  have closing : chars "\"\n  for key in geoips:\n    if ctx.geoip(ip) == key:\n      return geoips[key]" =
      '"' :: chars "\n  for key in geoips:\n    if ctx.geoip(ip) == key:\n      return geoips[key]" := by decide
  rw [geoipTemplate]
  simp only [List.append_assoc, address, result, closing]
  simp [geoipScript, text_listed text_countryScript, text_escaped, pythonStringEscape]

def ScriptData.geoips (data : ScriptData) : Option Text :=
  if data.countries = [] then none else some (commaText (data.countries.map countryText))

theorem text_script : data.script.text =
    clashScriptTemplate (data.rules.map RuleData.rendered) data.geoips (pythonStringEscape data.matchGroup) := by
  have opening : chars "def main(ctx, md):\n  host = md[\"host\"]\n" =
      chars "def main(ctx, md):\n  host = md[" ++ '"' :: (chars "host" ++ '"' :: chars "]\n") := by decide
  have closing : chars "\n  return \"" = chars "\n  return " ++ ['"'] := by decide
  have nothing : pythonStringEscape [] = [] := rfl
  have country : (if data.countries = [] then Composed.code [] else geoipScript data.countries data.matchGroup).text =
      (data.geoips.map fun geoips => geoipTemplate geoips (pythonStringEscape data.matchGroup)).getD [] := by
    rw [ScriptData.geoips]
    split
    · rfl
    · exact text_geoipScript _ _
  rw [ScriptData.script, clashScriptTemplate, Composed.text_joined, opening, closing]
  simp [country, text_escaped, text_groupScript, List.flatMap_map, nothing]

end Skeleton

section Runs

def lineKeyword (strLine : Text) : Option Text :=
  let line := if strLine.getLast? = some '\r' then strLine.dropLast else strLine
  if isSkipped line then none
  else if startsWith line (chars "DOMAIN-KEYWORD,") then
    match split line ',' with
    | _ :: keyword :: _ => some (trim keyword)
    | _ => none
  else none

variable (env : ScriptEnv)

def contentKeywords (content : RulesetSource) : List Text := (contentLines env content).filterMap lineKeyword

def countryOf (content : RulesetSource) : Option (Text × Text) :=
  let strLine := content.ruleContent.drop 2
  if content.rulePath ≠ [] ∨ startsWith strLine (chars "MATCH") ∨ startsWith strLine (chars "FINAL") then none
  else if startsWith strLine (chars "GEOIP") then
    match split strLine ',' with
    | _ :: country :: _ => some (country, content.ruleGroup)
    | _ => none
  else none

def countries (contents : List RulesetSource) : List (Text × Text) := contents.filterMap countryOf

def endedText (entries : List Text) : Text := entries.flatMap (· ++ [','])

def KeepsWords (s : ScriptState) (words : Text → List Text) : Prop :=
  ∀ x, s.keywords x = if words x = [] then none else some (keywordText (words x))

structure KeepsTexts (before : List RulesetSource) (s : ScriptState) (words : Text → List Text) : Prop where
  geoips : s.geoips = endedText ((countries before).map countryText)
  keeps : KeepsWords s words
  sources : ∀ x, ∀ word ∈ words x, ∃ content ∈ before, word ∈ contentKeywords env content

variable {env} {before contents : List RulesetSource} {s s' : ScriptState} {words : Text → List Text}

theorem commaText_concat (entries : List Text) (last : Text) :
    commaText (entries ++ [last]) = if entries = [] then last else commaText entries ++ ',' :: last := by
  cases entries with
  | nil => simp [commaText]
  | cons first rest => simp [commaText]

theorem dropLast_endedText (entries : List Text) : (endedText entries).dropLast = commaText entries := by
  cases entries with
  | nil => rfl
  | cons first rest =>
    have moved (front : Text) : front ++ ',' :: endedText rest = front ++ rest.flatMap (',' :: ·) ++ [','] := by
      induction rest generalizing front with
      | nil => simp [endedText]
      | cons entry rest ih =>
        have step := ih (front ++ ',' :: entry)
        simp only [endedText, List.flatMap_cons, List.append_assoc, List.cons_append, List.nil_append, List.append_cancel_left_eq,
          List.cons.injEq, true_and] at step ⊢
        exact step
    have whole : endedText (first :: rest) = commaText (first :: rest) ++ [','] := by
      rw [commaText, ← moved, endedText, List.flatMap_cons, List.append_assoc]
      rfl
    rw [whole, List.dropLast_concat]

theorem endedText_eq_nil {entries : List Text} : endedText entries = [] ↔ entries = [] := by
  cases entries <;> simp [endedText]

theorem push_of_script (script : env.script = true) (s : ScriptState) (rule : Text) : s.push env rule = s := if_pos script

structure SameNames (s s' : ScriptState) : Prop where
  ruleName : s'.ruleName = s.ruleName
  geoips : s'.geoips = s.geoips

theorem SameNames.trans {s'' : ScriptState} (first : SameNames s s') (second : SameNames s' s'') : SameNames s s'' :=
  ⟨second.ruleName.trans first.ruleName, second.geoips.trans first.geoips⟩

theorem KeepsWords.keyword (keeps : KeepsWords s words) (keyword : Text) :
    KeepsWords
      { s with
        keywords := assign s.keywords s.ruleName
          (some (((s.keywords s.ruleName).map (· ++ [','])).getD [] ++ pythonStringLiteral keyword)) }
      (assign words s.ruleName (words s.ruleName ++ [keyword])) := by
  intro x
  by_cases here : x = s.ruleName
  · have earlier := keeps s.ruleName
    by_cases first : words s.ruleName = []
    · rw [if_pos first] at earlier
      simp [assign, here, earlier, first, keywordText, commaText]
    · rw [if_neg first] at earlier
      simp [assign, here, earlier, first, keywordText, commaText_concat]
  · simpa [assign, here] using keeps x

theorem KeepsWords.line (script : env.script = true) (keeps : KeepsWords s words) (group line : Text) (flag : Bool) :
    KeepsWords (lineStep env group (s, flag) line).1 (assign words s.ruleName (words s.ruleName ++ (lineKeyword line).toList)) ∧
      SameNames s (lineStep env group (s, flag) line).1 := by
  have unchanged : assign words s.ruleName (words s.ruleName ++ []) = words := by
    funext x
    rw [assign, List.append_nil]
    split <;> simp_all
  have silent {after : ScriptState} (same : after.keywords = s.keywords) (named : SameNames s after) :
      KeepsWords after (assign words s.ruleName (words s.ruleName ++ (none : Option Text).toList)) ∧ SameNames s after := by
    refine ⟨fun x => ?_, named⟩
    rw [Option.toList_none, unchanged, same]
    exact keeps x
  simp only [lineStep, lineKeyword]
  generalize (if line.getLast? = some '\r' then line.dropLast else line) = line
  split
  · exact silent rfl ⟨rfl, rfl⟩
  split
  · rw [keywordStep, if_pos script]
    rcases split line ',' with _ | ⟨type, _ | ⟨keyword, rest⟩⟩
    · exact silent rfl ⟨rfl, rfl⟩
    · exact silent rfl ⟨rfl, rfl⟩
    · exact ⟨keeps.keyword (trim keyword), rfl, rfl⟩
  split
  · exact silent rfl ⟨rfl, rfl⟩
  split
  · exact silent rfl ⟨rfl, rfl⟩
  · exact silent rfl ⟨rfl, rfl⟩

theorem KeepsWords.lines (script : env.script = true) (keeps : KeepsWords s words) (group : Text) (lines : List Text) (flag : Bool) :
    KeepsWords (lines.foldl (lineStep env group) (s, flag)).1
        (assign words s.ruleName (words s.ruleName ++ lines.filterMap lineKeyword)) ∧
      SameNames s (lines.foldl (lineStep env group) (s, flag)).1 := by
  induction lines generalizing s words flag with
  | nil =>
    refine ⟨fun x => ?_, rfl, rfl⟩
    by_cases here : x = s.ruleName <;> simpa [assign, here] using keeps x
  | cons line lines ih =>
    obtain ⟨kept, same⟩ := keeps.line script group line flag
    rw [List.foldl_cons]
    obtain ⟨after, still⟩ := @ih (lineStep env group (s, flag) line).1 _ kept (lineStep env group (s, flag) line).2
    refine ⟨fun x => ?_, same.trans still⟩
    rw [after x, same.ruleName]
    by_cases here : x = s.ruleName
    · cases found : lineKeyword line <;> simp [assign, here, found]
    · simp [assign, here]

def Adds (env : ScriptEnv) (content : RulesetSource) (s s' : ScriptState) (words : Text → List Text) : Prop :=
  s'.geoips = s.geoips ∧
    ∃ words', KeepsWords s' words' ∧ ∀ x, ∀ word ∈ words' x, word ∈ words x ∨ word ∈ contentKeywords env content

theorem Adds.of_same {content : RulesetSource} (geoips : s'.geoips = s.geoips) (same : s'.keywords = s.keywords) (keeps : KeepsWords s words) :
    Adds env content s s' words :=
  ⟨geoips, words, fun x => (congrFun same x).trans (keeps x), fun _ _ there => .inl there⟩

theorem references_of_script (script : env.script = true) (group : Text) (s : ScriptState) (flag : Bool) :
    references env group s flag = s := by
  simp [references, push_of_script script]

theorem readStep_adds (script : env.script = true) (content : RulesetSource) (keeps : KeepsWords s words) :
    Adds env content s (readStep env content s) words := by
  rw [readStep]
  split
  · exact .of_same rfl rfl keeps
  · obtain ⟨kept, same⟩ := keeps.lines script content.ruleGroup (contentLines env content) false
    simp only [references_of_script script, ScriptState.join]
    refine ⟨?_, assign words s.ruleName (words s.ruleName ++ contentKeywords env content), ?_, fun x word there => ?_⟩
    · split <;> exact same.geoips
    · split <;> exact kept
    · rw [assign] at there
      split at there
      · rename_i here
        exact here ▸ List.mem_append.mp there
      · exact .inl there

theorem servedStep_adds (script : env.script = true) (content : RulesetSource) (keeps : KeepsWords s words) :
    Adds env content s (servedStep env content s) words := by
  rw [servedStep]
  split
  · exact readStep_adds script content keeps
  split
  · simp only [push_of_script script]
    split
    · exact .of_same rfl rfl keeps
    · have named : KeepsWords (s.named content content.rulePathTyped) words := keeps
      exact readStep_adds script content named
  · exact .of_same rfl rfl keeps

theorem typedStep_adds (script : env.script = true) (content : RulesetSource) (keeps : KeepsWords s words) :
    Adds env content s (typedStep env content s) words := by
  simp only [typedStep, push_of_script script]
  cases content.ruleType <;> exact .of_same rfl rfl keeps

theorem countries_concat (before : List RulesetSource) (content : RulesetSource) :
    endedText ((countries (before ++ [content])).map countryText) =
      endedText ((countries before).map countryText) ++ endedText ((countryOf content).toList.map countryText) := by
  cases found : countryOf content <;> simp [countries, endedText, found]

theorem KeepsTexts.adds {content : RulesetSource} (kept : KeepsTexts env before s words) (added : Adds env content s s' words)
    (nowhere : countryOf content = none) : ∃ words', KeepsTexts env (before ++ [content]) s' words' := by
  obtain ⟨geoips, words', keeps, sources⟩ := added
  refine ⟨words', ?_, keeps, fun x word there => ?_⟩
  · rw [countries_concat, nowhere, geoips, kept.geoips]
    exact (List.append_nil _).symm
  · rcases sources x word there with earlier | here
    · obtain ⟨source, among, inside⟩ := kept.sources x word earlier
      exact ⟨source, List.mem_append_left _ among, inside⟩
    · exact ⟨content, by simp, here⟩

theorem KeepsTexts.inline {content : RulesetSource} (script : env.script = true) (kept : KeepsTexts env before s words)
    (inline : content.rulePath = []) (done : inlineStep env content s = some s') :
    ∃ words', KeepsTexts env (before ++ [content]) s' words' := by
  have unchanged (nowhere : countryOf content = none) {after : ScriptState} (geoips : after.geoips = s.geoips)
      (same : after.keywords = s.keywords) : ∃ words', KeepsTexts env (before ++ [content]) after words' :=
    kept.adds (.of_same geoips same kept.keeps) nowhere
  have country : countryOf content =
      if startsWith (content.ruleContent.drop 2) (chars "MATCH") ∨ startsWith (content.ruleContent.drop 2) (chars "FINAL") then none
      else if startsWith (content.ruleContent.drop 2) (chars "GEOIP") then
        match split (content.ruleContent.drop 2) ',' with
        | _ :: country :: _ => some (country, content.ruleGroup)
        | _ => none
      else none := by
    simp [countryOf, inline]
  simp only [inlineStep, if_pos script] at done
  split at done
  · cases done
  split at done
  · rename_i final
    cases done
    exact unchanged (by rw [country, if_pos final]) rfl rfl
  rename_i ordinary
  rw [if_neg ordinary] at country
  split at done
  · rename_i geoip
    rw [if_pos geoip] at country
    generalize split (content.ruleContent.drop 2) ',' = fields at done country
    rcases fields with _ | ⟨type, _ | ⟨name, rest⟩⟩
    · cases done
      exact unchanged country rfl rfl
    · cases done
      exact unchanged country rfl rfl
    · cases done
      refine ⟨words, ?_, kept.keeps, fun x word there => ?_⟩
      · rw [countries_concat, country]
        simp [kept.geoips, endedText, countryText]
      · obtain ⟨source, among, inside⟩ := kept.sources x word there
        exact ⟨source, List.mem_append_left _ among, inside⟩
  · rename_i other
    rw [if_neg other] at country
    cases done
    exact unchanged country rfl rfl

theorem contentStep_keeps (script : env.script = true) (kept : KeepsTexts env before s words) {content : RulesetSource}
    (done : contentStep env s content = some s') : ∃ words', KeepsTexts env (before ++ [content]) s' words' := by
  rw [contentStep] at done
  split at done
  · rename_i inline
    exact kept.inline script inline done
  rename_i path
  have nowhere : countryOf content = none := by simp [countryOf, path]
  split at done
  · cases done
    exact kept.adds (typedStep_adds script content kept.keeps) nowhere
  · cases done
    exact kept.adds (servedStep_adds script content kept.keeps) nowhere

theorem foldlM_keeps (script : env.script = true) (kept : KeepsTexts env before s words)
    (done : contents.foldlM (contentStep env) s = some s') : ∃ words', KeepsTexts env (before ++ contents) s' words' := by
  induction contents generalizing before s words with
  | nil =>
    cases done
    exact ⟨words, by rwa [List.append_nil]⟩
  | cons content contents ih =>
    rw [List.foldlM_cons] at done
    obtain ⟨middle, stepped, done⟩ := Option.bind_eq_some_iff.mp done
    obtain ⟨words', next⟩ := contentStep_keeps script kept stepped
    obtain ⟨words'', last⟩ := ih next done
    exact ⟨words'', by rwa [List.append_assoc, List.singleton_append] at last⟩

end Runs

section Rendered

def ruleData (s : ScriptState) (words : Text → List Text) (x : Text) : RuleData where
  hasDomain := s.hasDomain x
  hasIpcidr := s.hasIpcidr x
  name := x
  group := s.names x
  keywords := words x
  original := s.ruleType x = .clashDomain || s.ruleType x = .clashIpCidr

def scriptData (s : ScriptState) (words : Text → List Text) (contents : List RulesetSource) : ScriptData where
  rules := s.groups.map (ruleData s words)
  countries := countries contents
  matchGroup := s.matchGroup

def codeOf (root : Entries) : Option Text :=
  match definedField root (chars "script") with
  | some (.map script) => (definedField script (chars "code")).bind YamlNode.text?
  | _ => none

variable {env : ScriptEnv} {contents : List RulesetSource} {s : ScriptState} {words : Text → List Text}

theorem rendered_ruleData (keeps : KeepsWords s words) (x : Text) : (ruleData s words x).rendered = scriptRule s x := by
  have keyword : (s.keywords x).getD [] = keywordText (words x) := by
    rw [keeps x]
    split
    · simp_all [keywordText, commaText]
    · rfl
  rw [scriptRule, keyword]
  rfl

theorem text_scriptData {code : Text} (kept : KeepsTexts env contents s words) (done : scriptCode s = some code) :
    code = (scriptData s words contents).script.text := by
  rw [scriptCode] at done
  split at done
  · cases done
  have rules : (s.groups.map (ruleData s words)).map RuleData.rendered = s.groups.map (scriptRule s) := by
    rw [List.map_map]
    exact List.map_congr_left fun x _ => rendered_ruleData kept.keeps x
  have geoips : (scriptData s words contents).geoips = if s.geoips = [] then none else some s.geoips.dropLast := by
    rw [ScriptData.geoips, scriptData, kept.geoips, dropLast_endedText]
    by_cases nowhere : countries contents = [] <;> simp [nowhere, endedText_eq_nil]
  rw [text_script, geoips]
  exact (Option.some_inj.mp done).symm.trans (by rw [scriptData, rules])

theorem readScript_escaped (value : Text) {quote : Char} (quoted : isQuote quote = true) :
    readScript (quote :: (pythonStringEscape value ++ [quote])) = some [.literal value] := by
  have opened : step (.code none) quote = some (.opened quote, []) := by simp [step, codeStep, quoted]
  obtain ⟨place, resting, read⟩ := run_literal (spells_pythonStringEscape value) quoted
  rw [readScript, run_silent opened, read]
  exact if_pos resting

theorem script_literals :
    (∀ (value : Text) (quote : Char), isQuote quote = true →
      (∀ c ∈ pythonStringEscape value, 0x20 ≤ c.toNat) ∧ Spells (pythonStringEscape value) value ∧
        readScript (quote :: (pythonStringEscape value ++ [quote])) = some [.literal value]) ∧
    ∀ (env : ScriptEnv) (baseRule root : Entries) (contents : List RulesetSource), env.script = true →
      renderClashScript env baseRule contents = some root →
        ∃ s words code, readContents env baseRule contents = some s ∧ KeepsTexts env contents s words ∧ codeOf root = some code ∧
          readScript code = some (scriptData s words contents).script.tokens ∧
          ∀ x ∈ s.groups, readScript (clashScriptKeywordTemplate (scriptRule s x)) = some (keywordScript (ruleData s words x)).tokens := by
  refine ⟨fun value quote quoted =>
    ⟨printed_pythonStringEscape value, spells_pythonStringEscape value, readScript_escaped value quoted⟩, ?_⟩
  intro env baseRule root contents script done
  obtain ⟨s, behind, done⟩ := Option.bind_eq_some_iff.mp done
  obtain ⟨⟨middle, paths⟩, -, done⟩ := Option.bind_eq_some_iff.mp done
  simp only [if_pos script] at done
  obtain ⟨code, rendered, done⟩ := Option.bind_eq_some_iff.mp done
  obtain ⟨fields, -, done⟩ := Option.bind_eq_some_iff.mp done
  obtain ⟨original, walked⟩ := readContents_run behind
  have begun : KeepsTexts env [] { rules := original } fun _ => [] := ⟨rfl, fun _ => rfl, fun _ _ there => absurd there List.not_mem_nil⟩
  obtain ⟨words, kept⟩ := foldlM_keeps script begun walked
  rw [List.nil_append] at kept
  have stored : codeOf root = some code := by
    cases done
    rw [codeOf, definedField_setField]
    simp [definedField_setField, YamlNode.text?]
  refine ⟨s, words, code, behind, kept, stored, ?_, fun x _ => ?_⟩
  · rw [text_scriptData kept rendered]
    exact readScript_text (ScriptData.sound_script _)
  · rw [← rendered_ruleData kept.keeps, ← text_keywordScript]
    exact readScript_text (sound_keywordScript _)

def quotedContents : List RulesetSource :=
  [{ ruleGroup := chars "\"it's\"", ruleContent := chars "[]GEOIP,C\\" },
    { ruleGroup := chars "a'\n", ruleType := .clashDomain, ruleContent := [], rulePath := chars "/it's \".yaml" },
    { ruleGroup := chars "last\\", ruleContent := chars "[]FINAL" }]

def quotedEnv : ScriptEnv where
  regexes := ⟨fun _ _ => false, fun text _ _ => text⟩
  fileExist := fun _ => false
  remotePathPrefix := []
  script := true

theorem script_literals_quoted :
    isQuote '"' = true ∧ readScript ('"' :: (pythonStringEscape (chars "it's \"") ++ ['"'])) = some [.literal (chars "it's \"")] ∧
      ∃ root s words code, renderClashScript quotedEnv [] quotedContents = some root ∧ codeOf root = some code ∧
        readScript code = some (scriptData s words quotedContents).script.tokens := by
  have rendered : (renderClashScript quotedEnv [] quotedContents).isSome = true := by decide
  obtain ⟨root, done⟩ := Option.isSome_iff_exists.mp rendered
  obtain ⟨s, words, code, -, -, stored, read, -⟩ := script_literals.2 quotedEnv [] root quotedContents rfl done
  exact ⟨rfl, (script_literals.1 (chars "it's \"") '"' rfl).2.2, root, s, words, code, done, stored, read⟩

end Rendered

end SubConverter.Generator.ClashScript
