import Rpld.DestLength

/-!
Prefixes as the configuration writes them. `parse_ipv6_prefix` finds the slash, copies what
stands before it without looking at the size of its buffer, and leaves the number behind it
to `strtoul`, which has no way to say where it stopped reading.
-/

namespace Rpld

/-! Numbers. -/

def decimalValue (digits : List Char) : Nat := digits.foldl (fun value c => 10 * value + (c.toNat - 48)) 0

theorem decimalFrom_digits {digits : List Char} (all : ∀ c ∈ digits, c.isDigit = true) (value : Nat) :
    decimalFrom value digits = digits.foldl (fun value c => 10 * value + (c.toNat - 48)) value := by
  induction digits generalizing value with
  | nil => rfl
  | cons c rest ih =>
      rw [List.forall_mem_cons] at all
      rw [decimalFrom, if_pos all.1, List.foldl_cons]
      exact ih all.2 _

theorem strtoul_unsigned {c : Char} {rest : List Char} (space : isspace c = false) (minus : c ≠ '-') (plus : c ≠ '+') :
    strtoul (c :: rest) =
      if ulongMax < decimalFrom 0 (c :: rest) then ulongMax else decimalFrom 0 (c :: rest) := by
  unfold strtoul
  rw [List.dropWhile_cons_of_neg (by simp [space])]
  simp only
  split
  · rename_i same
    simp only [List.cons.injEq] at same
    exact absurd same.1 minus
  · rename_i same
    simp only [List.cons.injEq] at same
    exact absurd same.1 plus
  · rfl

theorem isDigit_plain {c : Char} (digit : c.isDigit = true) : isspace c = false ∧ c ≠ '-' ∧ c ≠ '+' := by
  rw [Char.isDigit_iff_toNat] at digit
  have zero : '0'.toNat = 48 := rfl
  refine ⟨?_, ?_, ?_⟩
  · simp only [isspace, decide_eq_false_iff_not, not_or, not_and]
    refine ⟨?_, fun _ => by omega⟩
    intro same
    rw [same] at digit
    exact absurd digit.1 (by decide)
  · intro same
    rw [same] at digit
    exact absurd digit.1 (by decide)
  · intro same
    rw [same] at digit
    exact absurd digit.1 (by decide)

/-- A number as it should stand behind the slash: decimal digits for at most 128. -/
structure PrefixNumber (text : List Char) : Prop where
  some : text ≠ []
  digits : ∀ c ∈ text, c.isDigit = true
  bound : decimalValue text ≤ 128

theorem PrefixNumber.strtoul {text : List Char} (number : PrefixNumber text) :
    Rpld.strtoul text = decimalValue text := by
  obtain ⟨c, rest, rfl⟩ := List.exists_cons_of_ne_nil number.some
  obtain ⟨space, minus, plus⟩ := isDigit_plain (number.digits c (by simp))
  have small : ¬ ulongMax < decimalValue (c :: rest) := by
    have bound := number.bound
    simp only [ulongMax]
    omega
  rw [strtoul_unsigned space minus plus, decimalFrom_digits number.digits]
  exact if_neg small

/-! The slash. -/

theorem takeWhile_slash {ip : List Char} (first : '/' ∉ ip) (tail : List Char) :
    (ip ++ '/' :: tail).takeWhile (· ≠ '/') = ip ∧ (ip ++ '/' :: tail).dropWhile (· ≠ '/') = '/' :: tail := by
  induction ip with
  | nil => simp
  | cons c rest ih =>
      rw [List.mem_cons, not_or] at first
      obtain ⟨taken, dropped⟩ := ih first.2
      have other : c ≠ '/' := Ne.symm first.1
      simp only [List.cons_append, List.takeWhile_cons, List.dropWhile_cons, other, ne_eq, not_false_eq_true,
        decide_true, if_true, List.cons.injEq, true_and]
      exact ⟨taken, dropped⟩

theorem dropWhile_no_slash {str : List Char} (none : '/' ∉ str) : str.dropWhile (· ≠ '/') = [] := by
  induction str with
  | nil => rfl
  | cons c rest ih =>
      rw [List.mem_cons, not_or] at none
      have other : c ≠ '/' := Ne.symm none.1
      simp only [List.dropWhile_cons, other, ne_eq, not_false_eq_true, decide_true, if_true]
      exact ih none.2

theorem slash_cases (str : List Char) : '/' ∉ str ∨ ∃ ip tail, str = ip ++ '/' :: tail ∧ '/' ∉ ip := by
  induction str with
  | nil => exact Or.inl (by simp)
  | cons c rest ih =>
      by_cases here : c = '/'
      · exact Or.inr ⟨[], rest, by rw [here, List.nil_append], by simp⟩
      · rcases ih with none | ⟨ip, tail, split, first⟩
        · exact Or.inl (by simp [Ne.symm here, none])
        · exact Or.inr ⟨c :: ip, tail, by rw [split, List.cons_append], by simp [Ne.symm here, first]⟩

section

variable {inetPton : List Char → Option In6Addr} {ip tail : List Char}

theorem parseIpv6Prefix_none {str : List Char} (none : '/' ∉ str) :
    parseIpv6Prefix inetPton str = .error .rejected := by
  unfold parseIpv6Prefix
  rw [dropWhile_no_slash none]

theorem parseIpv6Prefix_many (first : '/' ∉ ip) (more : '/' ∈ tail) :
    parseIpv6Prefix inetPton (ip ++ '/' :: tail) = .error .rejected := by
  obtain ⟨taken, dropped⟩ := takeWhile_slash first tail
  unfold parseIpv6Prefix
  rw [dropped]
  simp only [more, if_true]

theorem parseIpv6Prefix_one (first : '/' ∉ ip) (last : '/' ∉ tail) (short : ip.length < inet6Addrstrlen)
    (dest : In6Prefix) :
    parseIpv6Prefix inetPton (ip ++ '/' :: tail) = .ok dest ↔
      inetPton ip = some dest.pfx ∧ strtoul tail ≤ 255 ∧ strtoul tail = dest.len.toNat := by
  obtain ⟨taken, dropped⟩ := takeWhile_slash first tail
  have fits : ¬ inet6Addrstrlen ≤ ip.length := by omega
  unfold parseIpv6Prefix
  rw [dropped]
  simp only [last, if_false, taken, fits]
  cases inetPton ip with
  | none => simp
  | some addr =>
      simp only [Option.some.injEq]
      split
      · rename_i large
        refine iff_of_false (by simp) ?_
        rintro ⟨_, small, _⟩
        rcases large with most | above
        · rw [most] at small
          exact absurd small (by decide)
        · omega
      · rename_i small
        rw [not_or] at small
        have inside : strtoul tail ≤ 255 := by omega
        constructor
        · intro same
          simp only [Except.ok.injEq] at same
          rw [← same]
          refine ⟨rfl, inside, ?_⟩
          rw [UInt8.toNat_ofNat']
          omega
        · rintro ⟨same, _, length⟩
          rw [length, UInt8.ofNat_toNat, same]

end

/-! The buffer. -/

/-- What `strncpy(ip, str, del - str)` stores from the start of `ip` on; it is reached when
there is one slash. -/
def ipCopied (str : List Char) : List Char :=
  match str.dropWhile (· ≠ '/') with
  | [] => []
  | _ :: tail => if '/' ∈ tail then [] else str.takeWhile (· ≠ '/')

/-- The buffer `ip` afterwards; it is zeroed when it is declared. -/
def ipAt (str : List Char) (index : Nat) : Char := (ipCopied str).getD index '\x00'

structure KeepsBuffer (str : List Char) : Prop where
  inside : ∀ index < (ipCopied str).length, index < inet6Addrstrlen
  terminated : ∃ index < inet6Addrstrlen, ipAt str index = '\x00'

theorem keepsBuffer_of_short {str : List Char} (short : (ipCopied str).length < inet6Addrstrlen) : KeepsBuffer str := by
  refine ⟨fun index below => by omega, (ipCopied str).length, short, ?_⟩
  simp [ipAt]

theorem ipCopied_one {ip tail : List Char} (first : '/' ∉ ip) (last : '/' ∉ tail) :
    ipCopied (ip ++ '/' :: tail) = ip := by
  obtain ⟨taken, dropped⟩ := takeWhile_slash first tail
  unfold ipCopied
  rw [dropped]
  simp only [last, if_false]
  exact taken

theorem keepsBuffer_one {ip tail : List Char} (first : '/' ∉ ip) (last : '/' ∉ tail) (plain : '\x00' ∉ ip) :
    KeepsBuffer (ip ++ '/' :: tail) ↔ ip.length < inet6Addrstrlen := by
  have copied := ipCopied_one first last
  constructor
  · intro keeps
    obtain ⟨index, below, zero⟩ := keeps.terminated
    rw [ipAt, copied] at zero
    -- a zero below the end of the copy would be one of the characters copied
    by_cases stored : index < ip.length
    · rw [List.getD_eq_getElem?_getD, List.getElem?_eq_getElem stored, Option.getD_some] at zero
      exact absurd (zero ▸ List.getElem_mem stored) plain
    · omega
  · intro short
    exact keepsBuffer_of_short (by rw [copied]; exact short)

/-! What a prefix should be, and what is taken for one. -/

/-- The text is an address that `inet_pton` accepts, one slash and a number of at most 128
in decimal digits, and `dest` is what it denotes. -/
def DenotesPrefix (inetPton : List Char → Option In6Addr) (str : List Char) (dest : In6Prefix) : Prop :=
  ∃ ip digits, str = ip ++ '/' :: digits ∧ '/' ∉ ip ∧ inetPton ip = some dest.pfx ∧ PrefixNumber digits ∧
    decimalValue digits = dest.len.toNat

theorem slash_split_unique {ip other tail rest : List Char} (first : '/' ∉ ip) (otherFirst : '/' ∉ other)
    (same : ip ++ '/' :: tail = other ++ '/' :: rest) : ip = other ∧ tail = rest := by
  have one := takeWhile_slash first tail
  have two := takeWhile_slash otherFirst rest
  rw [same] at one
  have back := one.2.symm.trans two.2
  simp only [List.cons.injEq, true_and] at back
  exact ⟨one.1.symm.trans two.1, back⟩

theorem PrefixNumber.no_slash {text : List Char} (number : PrefixNumber text) : '/' ∉ text :=
  fun member => absurd (number.digits '/' member) (by decide)

theorem denotesPrefix_one {inetPton : List Char → Option In6Addr} {ip tail : List Char} (first : '/' ∉ ip)
    (dest : In6Prefix) :
    DenotesPrefix inetPton (ip ++ '/' :: tail) dest ↔
      inetPton ip = some dest.pfx ∧ PrefixNumber tail ∧ decimalValue tail = dest.len.toNat := by
  constructor
  · rintro ⟨other, rest, same, otherFirst, accepted, number, length⟩
    obtain ⟨rfl, rfl⟩ := slash_split_unique first otherFirst same
    exact ⟨accepted, number, length⟩
  · rintro ⟨accepted, number, length⟩
    exact ⟨ip, tail, rfl, first, accepted, number, length⟩

theorem parse_one_iff {inetPton : List Char → Option In6Addr} {ip tail : List Char} (first : '/' ∉ ip)
    (last : '/' ∉ tail) (short : ip.length < inet6Addrstrlen) :
    (∀ dest, parseIpv6Prefix inetPton (ip ++ '/' :: tail) = .ok dest ↔
      DenotesPrefix inetPton (ip ++ '/' :: tail) dest) ↔
      ∀ addr, inetPton ip = some addr → PrefixNumber tail ∨ 255 < strtoul tail := by
  simp only [parseIpv6Prefix_one first last short, denotesPrefix_one first]
  constructor
  · intro agrees addr accepted
    by_cases large : 255 < strtoul tail
    · exact Or.inr large
    · have length : strtoul tail = (UInt8.ofNat (strtoul tail)).toNat := by
        rw [UInt8.toNat_ofNat']
        omega
      exact Or.inl ((agrees ⟨addr, UInt8.ofNat (strtoul tail)⟩).mp ⟨accepted, by omega, length⟩).2.1
  · intro honest dest
    constructor
    · rintro ⟨accepted, small, length⟩
      rcases honest dest.pfx accepted with number | large
      · rw [number.strtoul] at length
        exact ⟨accepted, number, length⟩
      · omega
    · rintro ⟨accepted, number, length⟩
      have bound := number.bound
      rw [number.strtoul]
      exact ⟨accepted, by omega, length⟩

/-- `parse_ipv6_prefix` stays inside its buffer and accepts exactly the texts that denote a
prefix, with what they denote, exactly when a text with one slash has fewer than 46 bytes
before it and, where these are an address, either a proper number behind it or something
that `strtoul` takes for more than 255. -/
theorem parse_ipv6_prefix_denotes_iff (inetPton : List Char → Option In6Addr) {str : List Char}
    (plain : '\x00' ∉ str) :
    (KeepsBuffer str ∧ ∀ dest, parseIpv6Prefix inetPton str = .ok dest ↔ DenotesPrefix inetPton str dest) ↔
      ∀ ip tail, str = ip ++ '/' :: tail → '/' ∉ ip → '/' ∉ tail →
        ip.length < inet6Addrstrlen ∧
          ∀ addr, inetPton ip = some addr → PrefixNumber tail ∨ 255 < strtoul tail := by
  rcases slash_cases str with none | ⟨ip, tail, rfl, first⟩
  · refine iff_of_true ⟨?_, ?_⟩ ?_
    · refine keepsBuffer_of_short ?_
      rw [ipCopied, dropWhile_no_slash none]
      exact Nat.zero_lt_succ _
    · intro dest
      rw [parseIpv6Prefix_none none]
      refine iff_of_false (by simp) ?_
      rintro ⟨ip, digits, rfl, _⟩
      simp at none
    · rintro ip tail rfl
      simp at none
  by_cases last : '/' ∈ tail
  · refine iff_of_true ⟨?_, ?_⟩ ?_
    · refine keepsBuffer_of_short ?_
      simp only [ipCopied, (takeWhile_slash first tail).2, last, if_true]
      decide
    · intro dest
      rw [parseIpv6Prefix_many first last, denotesPrefix_one first]
      refine iff_of_false (by simp) ?_
      rintro ⟨_, number, _⟩
      exact number.no_slash last
    · intro other rest same otherFirst otherLast
      obtain ⟨rfl, rfl⟩ := slash_split_unique first otherFirst same
      exact absurd last otherLast
  · rw [List.mem_append, not_or] at plain
    rw [keepsBuffer_one first last plain.1]
    constructor
    · rintro ⟨short, agrees⟩ other rest same otherFirst _
      obtain ⟨rfl, rfl⟩ := slash_split_unique first otherFirst same
      exact ⟨short, (parse_one_iff first last short).mp agrees⟩
    · intro honest
      obtain ⟨short, numbers⟩ := honest ip tail rfl first last
      exact ⟨short, (parse_one_iff first last short).mpr numbers⟩

theorem parse_ipv6_prefix_denotes_iff_sample :
    parseIpv6Prefix sampleInetPton "fd00::/64".toList = .ok sampleDest ∧
      DenotesPrefix sampleInetPton "fd00::/64".toList sampleDest := by
  have digits : "64".toList.all Char.isDigit = true := by decide
  have number : PrefixNumber "64".toList := ⟨by decide, List.all_eq_true.mp digits, by decide⟩
  have agrees := ((parse_ipv6_prefix_denotes_iff sampleInetPton
    (show '\x00' ∉ "fd00::/64".toList by decide)).mpr ?_).2 sampleDest
  · have parsed : parseIpv6Prefix sampleInetPton "fd00::/64".toList = .ok sampleDest := rfl
    exact ⟨parsed, agrees.mp parsed⟩
  · intro ip tail same first _
    obtain ⟨rfl, rfl⟩ := slash_split_unique (show '/' ∉ "fd00::".toList by decide) first
      (show "fd00::".toList ++ '/' :: "64".toList = ip ++ '/' :: tail from same)
    exact ⟨by decide, fun _ _ => Or.inl number⟩

/-- Nothing behind the slash is taken for 0, other characters behind a number are passed
over, 200 is a length, and an address part of 46 characters leaves no room for its end. -/
theorem parse_ipv6_prefix_not_denoted :
    (∀ text ∈ ["fd00::/".toList, "fd00::/64 bit".toList, "fd00::/200".toList],
      ¬ ∀ dest, parseIpv6Prefix sampleInetPton text = .ok dest ↔ DenotesPrefix sampleInetPton text dest) ∧
    ¬ KeepsBuffer (List.replicate 46 '0' ++ '/' :: "64".toList) := by
  have first : '/' ∉ "fd00::".toList := by decide
  have refutes : ∀ tail : List Char, '/' ∉ tail → ¬ PrefixNumber tail → ¬ 255 < strtoul tail →
      ¬ ∀ dest, parseIpv6Prefix sampleInetPton ("fd00::".toList ++ '/' :: tail) = .ok dest ↔
        DenotesPrefix sampleInetPton ("fd00::".toList ++ '/' :: tail) dest := by
    intro tail last improper small agrees
    rcases (parse_one_iff first last (by decide)).mp agrees sampleDest.pfx rfl with number | large
    · exact improper number
    · exact small large
  constructor
  · intro text member
    simp only [List.mem_cons, List.not_mem_nil, or_false] at member
    rcases member with rfl | rfl | rfl
    · exact refutes [] (by simp) (fun number => number.some rfl) (by decide)
    · refine refutes "64 bit".toList (by decide) (fun number => ?_) (by decide)
      exact absurd (number.digits ' ' (by decide)) (by decide)
    · exact refutes "200".toList (by decide) (fun number => absurd number.bound (by decide)) (by decide)
  · rw [keepsBuffer_one (by decide) (by decide) (by decide)]
    decide

end Rpld
