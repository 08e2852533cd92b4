import SubConverter.Lib.Results
import SubConverter.Server.CidrMatching

set_option autoImplicit false

namespace SubConverter.Server

open Handler (Address Family parseAddress trimWhitespace digitsValue)

section Hops

variable {header : Header} {value left right : Text} {chain : List Address} {texts : List Text} {delimiter : Char}

def hopTexts (header : Header) (value : Text) : Option (List Text) :=
  match header with
  | .forwarded => splitQuoted value ','
  | _ => some (value.splitOn ',')

def hopAddress (header : Header) (text : Text) : Option Address :=
  match header with
  | .forwarded => forwardedElement text
  | _ => parseAddress text

theorem forwardedForFrom_eq_some_iff {addresses : List Address} (short : addresses.length ≤ kMaxForwardedHops) :
    forwardedForFrom addresses texts = some chain ↔
      ∃ rest, chain = addresses ++ rest ∧ chain.length ≤ kMaxForwardedHops ∧
        List.Forall₂ (fun text address => parseAddress text = some address) texts rest := by
  induction texts generalizing addresses with
  | nil =>
    simp only [forwardedForFrom, Option.some.injEq, List.forall₂_nil_left_iff]
    constructor
    · rintro rfl
      exact ⟨[], by simp, short, rfl⟩
    · rintro ⟨rest, rfl, -, rfl⟩
      simp
  | cons text more ih =>
    simp only [forwardedForFrom, List.forall₂_cons_left_iff]
    cases read : parseAddress text with
    | none => simp
    | some address =>
      by_cases many : kMaxForwardedHops < addresses.length + 1
      · simp only [many, if_true, reduceCtorEq, false_iff]
        rintro ⟨rest, rfl, within, next, others, -, -, rfl⟩
        simp only [List.length_append, List.length_cons] at within
        omega
      · simp only [many, if_false]
        rw [ih (by simpa using Nat.not_lt.mp many)]
        constructor
        · rintro ⟨rest, rfl, within, others⟩
          exact ⟨address :: rest, by simp, by simpa using within, address, rest, rfl, others, rfl⟩
        · rintro ⟨rest, rfl, within, next, rest, same, others, rfl⟩
          obtain rfl := Option.some.inj same
          exact ⟨rest, by simp, by simpa using within, others⟩

theorem selectedChain_eq_some_iff (list : header.isList = true) :
    selectedChain header value = some chain ↔
      ∃ texts, hopTexts header value = some texts ∧ texts ≠ [] ∧ chain.length ≤ kMaxForwardedHops ∧
        List.Forall₂ (fun text address => hopAddress header text = some address) texts chain := by
  cases header with
  | xForwardedFor =>
    have read := @forwardedForFrom_eq_some_iff chain (value.splitOn ',') [] (Nat.zero_le _)
    simp only [selectedChain, parseXForwardedFor, read, hopTexts, hopAddress, Option.some.injEq, exists_eq_left',
      List.nil_append]
    have present : value.splitOn ',' ≠ [] := List.splitOn_ne_nil _ _
    simp only [present, ne_eq, not_false_eq_true, true_and]
  | forwarded =>
    simp only [selectedChain, parseForwarded, hopTexts, hopAddress]
    cases splitQuoted value ',' with
    | none => simp
    | some elements =>
      by_cases bad : elements = [] ∨ kMaxForwardedHops < elements.length
      · simp only [bad, if_true, reduceCtorEq, false_iff, Option.some.injEq, exists_eq_left']
        rintro ⟨present, within, hops⟩
        rw [← hops.length_eq] at within
        exact bad.elim present (Nat.not_lt.mpr within)
      · simp only [bad, if_false, Option.some.injEq, exists_eq_left', mapM_eq_some_iff]
        obtain ⟨present, within⟩ := not_or.mp bad
        constructor
        · intro hops
          exact ⟨present, by rw [← hops.length_eq]; omega, hops⟩
        · exact fun hops => hops.2.2
  | none | xRealIp | cfConnectingIp | trueClientIp => simp [Header.isList] at list

def QuotedScan.behind (scan : QuotedScan) (parts : List Text) : QuotedScan := { scan with parts := parts ++ scan.parts }

theorem QuotedScan.push_behind (scan : QuotedScan) (parts : List Text) (c : Char) :
    (scan.behind parts).push delimiter c = (scan.push delimiter c).behind parts := by
  unfold push behind
  split_ifs <;> simp_all

theorem QuotedScan.foldl_behind (scan : QuotedScan) (parts : List Text) :
    right.foldl (push delimiter) (scan.behind parts) = (right.foldl (push delimiter) scan).behind parts := by
  induction right generalizing scan with
  | nil => rfl
  | cons c rest ih => rw [List.foldl_cons, List.foldl_cons, push_behind, ih]

theorem QuotedScan.close_behind (scan : QuotedScan) (parts : List Text) :
    (scan.behind parts).close = scan.close.map fun later => parts ++ later := by
  by_cases unclosed : (scan.quoted || scan.escaped) = true
  · simp [close, behind, unclosed]
  · simp [close, behind, unclosed]

theorem splitQuoted_append {parts : List Text} (plain : delimiter ≠ '\x22') (closed : splitQuoted left delimiter = some parts) :
    splitQuoted (left ++ delimiter :: right) delimiter = (splitQuoted right delimiter).map fun later => parts ++ later := by
  unfold splitQuoted at closed ⊢
  rw [List.foldl_append, List.foldl_cons]
  generalize left.foldl (QuotedScan.push delimiter) {} = scan at closed ⊢
  by_cases unclosed : (scan.quoted || scan.escaped) = true
  · simp [QuotedScan.close, unclosed] at closed
  · rw [QuotedScan.close, if_neg unclosed, Option.some.injEq] at closed
    obtain ⟨unquoted, unescaped⟩ : scan.quoted = false ∧ scan.escaped = false := by simpa using unclosed
    have cut : scan.push delimiter delimiter = ({} : QuotedScan).behind parts := by
      simp [QuotedScan.push, QuotedScan.behind, unquoted, unescaped, plain, ← closed]
    rw [cut, QuotedScan.foldl_behind, QuotedScan.close_behind]

theorem hopTexts_append (closed : hopTexts header left = some texts) :
    hopTexts header (left ++ ',' :: right) = (hopTexts header right).map fun later => texts ++ later := by
  cases header with
  | forwarded => exact splitQuoted_append (by decide) closed
  | none | xForwardedFor | xRealIp | cfConnectingIp | trueClientIp =>
    obtain rfl := Option.some.inj closed
    simp [hopTexts, List.splitOn_append_cons_self]

theorem selectedChain_append {own : List Address} (list : header.isList = true) (closed : hopTexts header left = some texts)
    (alone : selectedChain header right = some own) (together : selectedChain header (left ++ ',' :: right) = some chain) :
    ∃ before, chain = before ++ own := by
  obtain ⟨behind, cut, -, -, hops⟩ := (selectedChain_eq_some_iff list).mp alone
  obtain ⟨all, whole, -, -, reads⟩ := (selectedChain_eq_some_iff list).mp together
  rw [hopTexts_append closed, cut, Option.map_some, Option.some.injEq] at whole
  rw [← mapM_eq_some_iff] at hops reads
  rw [← whole, List.mapM_append, hops] at reads
  cases first : texts.mapM (hopAddress header) with
  | none => simp [first] at reads
  | some before => exact ⟨before, by simpa [first, eq_comm] using reads⟩

end Hops

section Requests

variable {policy : Policy} {peer hop : Address} {left right value : Text} {selected : List Text} {texts : List Text}
  {chain before behind : List Address}

structure Accepted (policy : Policy) (peer : Address) (value : Text) (chain : List Address) : Prop where
  list : policy.header.isList = true
  trusted : isTrusted peer policy = true
  short : value.length ≤ kMaxSelectedHeaderBytes
  read : selectedChain policy.header value = some chain

structure RightmostUntrusted (policy : Policy) (hop : Address) (behind : List Address) : Prop where
  untrusted : isTrusted hop policy = false
  trusted : ∀ address ∈ behind, isTrusted address policy = true

def Carries (policy : Policy) (selected : List Text) : Prop :=
  policy.header ≠ .none ∧
    ∃ value, selected = [value] ∧ value.length ≤ kMaxSelectedHeaderBytes ∧ (selectedChain policy.header value).isSome

theorem Accepted.enabled (accepted : Accepted policy peer value chain) : policy.enabled = true := by
  have named : policy.header ≠ .none := by
    intro none
    simpa [none, Header.isList] using accepted.list
  have present : policy.trustedProxyCidrs ≠ [] := by
    intro empty
    simpa [isTrusted, empty] using accepted.trusted
  simp [Policy.enabled, named, present]

theorem RightmostUntrusted.found (rightmost : RightmostUntrusted policy hop behind) :
    (before ++ hop :: behind).reverse.find? (fun address => !isTrusted address policy) = some hop := by
  have skipped : behind.reverse.find? (fun address => !isTrusted address policy) = none := by
    simpa using rightmost.trusted
  simp [List.find?_append, skipped, rightmost.untrusted]

theorem Accepted.resolve (accepted : Accepted policy peer value (before ++ hop :: behind))
    (rightmost : RightmostUntrusted policy hop behind) : resolve (some peer) [value] policy = ⟨some hop, true⟩ := by
  have short : ¬kMaxSelectedHeaderBytes < value.length := Nat.not_lt.mpr accepted.short
  simp only [Server.resolve, Option.all_some, accepted.trusted, accepted.enabled, accepted.read, accepted.list, short,
    rightmost.found, Bool.not_true, Bool.or_false, Bool.false_eq_true, if_true, if_false]

theorem resolve_untrusted {peer : Option Address} (untrusted : ∀ address, peer = some address → isTrusted address policy = false) :
    resolve peer selected policy = ⟨peer, false⟩ := by
  have refused : peer.all (fun peer => !isTrusted peer policy) = true := by
    cases peer with
    | none => rfl
    | some address => simp [untrusted address rfl]
  simp [resolve, refused]

theorem resolve_uncarried {peer : Option Address} (uncarried : ¬Carries policy selected) :
    resolve peer selected policy = ⟨peer, false⟩ := by
  by_cases refused : (peer.all (fun peer => !isTrusted peer policy) || !policy.enabled) = true
  · simp only [resolve, refused, if_true]
  · have named : policy.header ≠ .none := by
      intro none
      simp [Policy.enabled, none] at refused
    unfold resolve
    dsimp only
    rw [if_neg refused]
    match selected with
    | [] | _ :: _ :: _ => rfl
    | [value] =>
      by_cases long : kMaxSelectedHeaderBytes < value.length
      · simp only [long, if_true]
      · cases read : selectedChain policy.header value with
        | none => simp only [long, if_false, read]
        | some chain => exact absurd ⟨named, value, rfl, Nat.not_lt.mp long, by simp [read]⟩ uncarried

theorem client_address_unspoofed (policy : Policy) (peer : Address) :
    (∀ value other hop before beside behind, Accepted policy peer value (before ++ hop :: behind) →
      Accepted policy peer other (beside ++ hop :: behind) → RightmostUntrusted policy hop behind →
      resolve (some peer) [value] policy = ⟨some hop, true⟩ ∧ resolve (some peer) [other] policy = ⟨some hop, true⟩) ∧
    (∀ left right texts chain hop before behind, hopTexts policy.header left = some texts →
      selectedChain policy.header right = some (before ++ hop :: behind) →
      Accepted policy peer (left ++ ',' :: right) chain → RightmostUntrusted policy hop behind →
      resolve (some peer) [left ++ ',' :: right] policy = ⟨some hop, true⟩) ∧
    ∀ (sender : Option Address) (selected : List Text),
      (∀ address, sender = some address → isTrusted address policy = false) ∨ ¬Carries policy selected →
      resolve sender selected policy = ⟨sender, false⟩ := by
  refine ⟨?_, ?_, ?_⟩
  · intro value other hop before beside behind accepted agreed rightmost
    exact ⟨accepted.resolve rightmost, agreed.resolve rightmost⟩
  · intro left right texts chain hop before behind closed alone accepted rightmost
    obtain ⟨added, rfl⟩ := selectedChain_append accepted.list closed alone accepted.read
    rw [← List.append_assoc] at accepted
    exact accepted.resolve rightmost
  · intro sender selected refused
    rcases refused with untrusted | uncarried
    · exact resolve_untrusted untrusted
    · exact resolve_uncarried uncarried

def quad (a b c d : Nat) : Address := ⟨.ipv4, [a, b, c, d, 0, 0, 0, 0, 0, 0, 0, 0, 0, 0, 0, 0]⟩

def proxied : Policy := { header := .forwarded, trustedProxyCidrs := [{ network := quad 10 0 0 0, prefixLength := 8 }] }

theorem client_address_unspoofed_forwarded :
    let peer : Address := quad 10 0 0 1
    let client : Address := quad 203 0 113 9
    let right := chars "for=\"203.0.113.9:4711\";proto=https, for=10.1.2.3"
    (resolve (some peer) [right] proxied = ⟨some client, true⟩ ∧
        resolve (some peer) [chars "for=\"[2001:db8::7]\"," ++ right] proxied = ⟨some client, true⟩) ∧
      resolve (some peer) [chars "for=198.51.100.1;by=\"a,b\"" ++ ',' :: right] proxied = ⟨some client, true⟩ ∧
      resolve (some client) [right] proxied = ⟨some client, false⟩ := by
  intro peer client right
  have rightmost : RightmostUntrusted proxied client [quad 10 1 2 3] := ⟨by decide, by decide⟩
  exact ⟨(client_address_unspoofed proxied peer).1 _ _ client [] [⟨.ipv6, [32, 1, 13, 184, 0, 0, 0, 0, 0, 0, 0, 0, 0, 0, 0, 7]⟩] _
      ⟨rfl, by decide, by decide, by decide +kernel⟩ ⟨rfl, by decide, by decide, by decide +kernel⟩ rightmost,
    (client_address_unspoofed proxied peer).2.1 _ _ _ [quad 198 51 100 1, client, quad 10 1 2 3] client [] _ rfl
      (by decide +kernel) ⟨rfl, by decide, by decide, by decide +kernel⟩ rightmost,
    (client_address_unspoofed proxied peer).2.2 (some client) [right] (Or.inl fun address same => by
      obtain rfl := Option.some.inj same
      decide)⟩

-- A quote left open takes the comma behind it, and the hops there are one text.
example : parseForwarded (chars "for=1.1.1.1;x=\", for=9.9.9.9;host=\"") = some [quad 1 1 1 1] := by decide

end Requests

section Configuration

variable {raws : List Text} {cidrs : List Cidr} {name text : Text} {policy : Policy} {peer : Address}

theorem mem_parseCidrs_iff {cidr : Cidr} (read : parseCidrs raws = .ok cidrs) : cidr ∈ cidrs ↔ ∃ raw ∈ raws, parseCidr raw = .ok cidr := by
  induction raws generalizing cidrs with
  | nil =>
    obtain rfl := Except.ok.inj read
    simp
  | cons raw rest ih =>
    obtain ⟨first, single, read⟩ := bind_eq_ok_iff.mp read
    obtain ⟨others, behind, read⟩ := bind_eq_ok_iff.mp read
    obtain rfl := Except.ok.inj read
    rw [List.mem_cons, ih behind, List.exists_mem_cons_iff, single, Except.ok.injEq, @eq_comm _ cidr]

theorem makePolicy_made (made : makePolicy name raws = .ok policy) :
    policy = ⟨.none, []⟩ ∨ policy.enabled = true ∧ parseCidrs raws = .ok policy.trustedProxyCidrs := by
  rw [makePolicy, guard_eq_ok_iff] at made
  obtain ⟨-, made⟩ := made
  obtain ⟨header, -, made⟩ := bind_eq_ok_iff.mp made
  obtain ⟨cidrs, read, made⟩ := bind_eq_ok_iff.mp made
  split at made
  next => exact .inl (Except.ok.inj made).symm
  next named =>
    obtain rfl := Except.ok.inj made
    obtain ⟨header, some'⟩ := not_or.mp named
    exact .inr ⟨by simp [Policy.enabled, header, some'], read⟩

-- The peer is in a network of the configuration, read bit by bit.
def InNetwork (raw : Text) (peer : Address) : Prop :=
  ∃ cidr part bits network, AcceptedCidr raw cidr part bits network ∧ peer.family = network.family ∧
    (addressBits peer).take (digitsValue bits) = (addressBits network).take (digitsValue bits)

theorem inNetwork_iff {raw : Text} {cidr : Cidr} (read : parseCidr raw = .ok cidr) (parsed : parseAddress text = some peer) :
    InNetwork raw peer ↔ cidr.contains peer = true := by
  constructor
  · rintro ⟨other, part, bits, network, accepted, inside⟩
    obtain rfl : cidr = other := Except.ok.inj (read.symm.trans ((accepted_iff raw other).mpr ⟨_, _, _, accepted⟩))
    exact (accepted.contains_iff parsed).mpr inside
  · intro inside
    obtain ⟨part, bits, network, accepted⟩ := (accepted_iff raw cidr).mp read
    exact ⟨cidr, part, bits, network, accepted, (accepted.contains_iff parsed).mp inside⟩

theorem configured_proxies_trusted (made : makePolicy name raws = .ok policy) (parsed : parseAddress text = some peer) :
    (isTrusted peer policy = true ↔ policy.enabled = true ∧ ∃ raw ∈ raws, InNetwork raw peer) ∧
      ∀ selected, (resolve (some peer) selected policy).usedForwardedHeader = true → ∃ raw ∈ raws, InNetwork raw peer := by
  have trusted : isTrusted peer policy = true ↔ policy.enabled = true ∧ ∃ raw ∈ raws, InNetwork raw peer := by
    rcases makePolicy_made made with rfl | ⟨enabled, read⟩
    · simp [isTrusted, Policy.enabled]
    · rw [isTrusted, List.any_eq_true, and_iff_right enabled]
      constructor
      · rintro ⟨cidr, listed, inside⟩
        obtain ⟨raw, written, single⟩ := (mem_parseCidrs_iff read).mp listed
        exact ⟨raw, written, (inNetwork_iff single parsed).mpr inside⟩
      · rintro ⟨raw, written, cidr, part, bits, network, accepted, inside⟩
        have single := (accepted_iff raw cidr).mpr ⟨part, bits, network, accepted⟩
        exact ⟨cidr, (mem_parseCidrs_iff read).mpr ⟨raw, written, single⟩, (accepted.contains_iff parsed).mpr inside⟩
  refine ⟨trusted, fun selected used => ?_⟩
  cases refused : isTrusted peer policy with
  | true => exact (trusted.mp refused).2
  | false =>
    have plain := @resolve_untrusted policy selected (some peer) fun address same => Option.some.inj same ▸ refused
    rw [plain] at used
    cases used

theorem configured_proxies_trusted_private :
    InNetwork (chars "10.0.0.0/8") (quad 10 1 2 3) ∧ ¬InNetwork (chars "10.0.0.0/8") (quad 11 1 2 3) := by
  have made : ∃ policy, makePolicy (chars "Forwarded") [chars "10.0.0.0/8"] = .ok policy ∧
      isTrusted (quad 10 1 2 3) policy = true ∧ policy.enabled = true ∧ isTrusted (quad 11 1 2 3) policy = false := by
    refine ⟨proxied, by decide +kernel, by decide, by decide, by decide⟩
  obtain ⟨policy, made, inside, enabled, outside⟩ := made
  have near := (configured_proxies_trusted made (by decide +kernel : parseAddress (chars "10.1.2.3") = some (quad 10 1 2 3))).1
  have far := (configured_proxies_trusted made (by decide +kernel : parseAddress (chars "11.1.2.3") = some (quad 11 1 2 3))).1
  simp only [List.mem_singleton, exists_eq_left] at near far
  refine ⟨(near.mp inside).2, fun wrong => ?_⟩
  rw [far.mpr ⟨enabled, wrong⟩] at outside
  cases outside

end Configuration

end SubConverter.Server
