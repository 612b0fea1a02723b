/-
This file is about addresses that carry another one. A gateway forwards what is sent to
them to the IPv4 address inside, so they are in the class of that address. The ordered
rules for IPv6 addresses leave none of them to an earlier or a later rule.
-/

import Geeboard.Net.Literals

namespace Geeboard.Net

open Dns (Address)

/-! ### What carries an IPv4 address -/

/-- The numbers of an IPv6 address that carries an IPv4 address: mapped, compatible (without the
unspecified address and the loopback address), translated, behind a gateway's common prefix
or a local one, or in the next to first place. -/
inductive Carries (quad : Quad) : List Nat → Prop
  | mapped : Carries quad [0, 0, 0, 0, 0, 0xffff, quad.high, quad.low]
  | compatible (other : ¬ (quad.high = 0 ∧ (quad.low = 0 ∨ quad.low = 1))) :
      Carries quad [0, 0, 0, 0, 0, 0, quad.high, quad.low]
  | translated : Carries quad [0, 0, 0, 0, 0xffff, 0, quad.high, quad.low]
  | gateway : Carries quad [0x64, 0xff9b, 0, 0, 0, 0, quad.high, quad.low]
  | localGateway (d e f : Nat) : Carries quad [0x64, 0xff9b, 1, d, e, f, quad.high, quad.low]
  | sixToFour (d e f g h : Nat) : Carries quad [0x2002, quad.high, quad.low, d, e, f, g, h]

theorem halves_of (high : Nat) {low : Nat} (small : low < 256) :
    (high * 256 + low) / 256 = high ∧ (high * 256 + low) % 256 = low := by
  omega

/-- The four numbers are found again. -/
theorem v4Of_halves {quad : Quad} (b : quad.b < 256) (d : quad.d < 256) :
    v4Of quad.high quad.low = quad := by
  have high (number : Nat) : number >>> 8 = number / 256 := Nat.shiftRight_eq_div_pow number 8
  have low (number : Nat) : number &&& 0xff = number % 256 :=
    Nat.and_two_pow_sub_one_eq_mod number 8
  unfold v4Of Quad.high Quad.low
  rw [high, high, low, low]
  rw [(halves_of quad.a b).1, (halves_of quad.a b).2, (halves_of quad.c d).1,
    (halves_of quad.c d).2]

/-- What carries an address is classed as that address. -/
theorem classifyV6_of_carries {quad : Quad} {groups : List Nat} (b : quad.b < 256)
    (d : quad.d < 256) (carries : Carries quad groups) : classifyV6 groups = classifyV4 quad := by
  have halves := v4Of_halves b d
  cases carries with
  | mapped => simp [classifyV6, halves]
  | compatible other =>
    rw [not_and_or, not_or] at other
    by_cases high : quad.high = 0
    · have low := other.resolve_left fun different => different high
      rw [high] at halves ⊢
      simp [classifyV6, halves, low.1, low.2]
    · simp [classifyV6, halves, high]
  | translated => simp [classifyV6, halves]
  | gateway => simp [classifyV6, halves]
  | localGateway => simp [classifyV6, halves]
  | sixToFour => simp [classifyV6, halves]

/-- The guard cannot be spelled around: the platform takes the spellings of addresses and no
other text; two spellings of an address have one class, that of its numbers; and what carries an
IPv4 address has the class of that address, however either is written. -/
theorem classifyAddress_by_address :
    (∀ text, isIPv6 text = true ↔ ∃ address : Address, SpellsZoned text address.groups) ∧
    (∀ (address : Address) first second, Writes first address → Writes second address →
      classifyAddress first = classifyAddress second ∧
        classifyAddress first = some (classifyV6 address.groups)) ∧
    (∀ quad text (address : Address) carrier, SpellsV4 text quad →
      Carries quad address.groups → Writes carrier address →
      classifyAddress carrier = classifyAddress text ∧
        classifyAddress text = some (classifyV4 quad)) := by
  refine ⟨isIPv6_iff, fun address first second one other => ?_,
    fun quad text address carrier spells carries writes => ?_⟩
  · rw [classifyAddress_of_writes one, classifyAddress_of_writes other]
    exact ⟨rfl, rfl⟩
  · obtain ⟨-, b, -, d⟩ := octets_lt spells
    rw [classifyAddress_of_writes writes, classifyAddress_of_v4 spells,
      classifyV6_of_carries b d carries]
    exact ⟨rfl, rfl⟩

/-- The loopback address, mapped, in two spellings. -/
theorem classifyAddress_by_address_loopback :
    classifyAddress "[::FFFF:7f00:1%eth0]".toList = classifyAddress "127.0.0.1".toList ∧
      classifyAddress "::ffff:127.0.0.1".toList = classifyAddress "127.0.0.1".toList := by
  let quad : Quad := ⟨127, 0, 0, 1⟩
  let address : Address := ⟨[0, 0, 0, 0, 0, 0xffff, quad.high, quad.low], rfl, by decide⟩
  have octet : ∀ text ∈ ["127".toList, "0".toList, "1".toList], Dns.isOctet text = true := by
    decide +kernel
  have dotted : SpellsV4 "127.0.0.1".toList quad :=
    @SpellsV4.dotted "127".toList "0".toList "0".toList "1".toList quad
      ⟨octet _ (by decide), by decide +kernel⟩ ⟨octet _ (by decide), by decide +kernel⟩
      ⟨octet _ (by decide), by decide +kernel⟩ ⟨octet _ (by decide), by decide +kernel⟩
  have hexadecimal : SpellsZoned "::FFFF:7f00:1%eth0".toList address.groups :=
    ⟨"::FFFF:7f00:1".toList, "%eth0".toList, rfl,
      @SpellsBare.shortened [] ["FFFF".toList, "7f00".toList, "1".toList] []
        [0xffff, quad.high, quad.low]
        .nil (.plain (.cons ⟨by decide +kernel, by decide +kernel⟩
          (.cons ⟨by decide +kernel, by decide +kernel⟩
            (.cons ⟨by decide +kernel, by decide +kernel⟩ .nil)))) 5 (by decide),
      Or.inr ⟨"eth0".toList, rfl, by decide, by decide +kernel⟩⟩
  have bare : SpellsBare "::ffff:127.0.0.1".toList address.groups := by
    have spells := @SpellsBare.shortened [] (["ffff".toList] ++ ["127.0.0.1".toList]) []
      ([0xffff] ++ [quad.high, quad.low]) .nil
      (.dotted (.cons ⟨by decide +kernel, by decide +kernel⟩ .nil) dotted) 5 (by decide)
    have text : Text.separated ':' [] ++ ':' :: ':' :: Text.separated ':'
        (["ffff".toList] ++ ["127.0.0.1".toList]) = "::ffff:127.0.0.1".toList := by
      decide +kernel
    rw [text] at spells
    exact spells
  have decimal : SpellsZoned "::ffff:127.0.0.1".toList address.groups :=
    ⟨"::ffff:127.0.0.1".toList, [], (List.append_nil _).symm, bare, Or.inl rfl⟩
  have bracketed : Writes "[::FFFF:7f00:1%eth0]".toList address :=
    ⟨"::FFFF:7f00:1%eth0".toList, ⟨[], ['['], [], [], [']'], [], rfl, by decide, Or.inr rfl,
      Or.inr rfl⟩, hexadecimal⟩
  have plain : Writes "::ffff:127.0.0.1".toList address :=
    ⟨"::ffff:127.0.0.1".toList, ⟨[], [], [], [], [], [], rfl, by decide, Or.inl rfl,
      Or.inl rfl⟩, decimal⟩
  obtain ⟨-, -, carriers⟩ := classifyAddress_by_address
  exact ⟨(carriers quad _ address _ dotted .mapped bracketed).1,
    (carriers quad _ address _ dotted .mapped plain).1⟩

end Geeboard.Net
