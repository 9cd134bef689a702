import LogIntake.Net.Address.Parser
import LogIntake.Net.Address.Printer

/-!
# Addresses, written and read back

A reader of an address reads exactly what is written of one, whatever stands behind it that could not be a part of it.
So a text that is put together from an address and other things falls into its parts again: a socket address is read
back as it was written.
-/

namespace LogIntake

namespace AddressText

variable {base n : Nat} {c : Char} {cs rest : List Char}

/-! ## Digits -/

/-- No digit stands in front. -/
def Ends (base : Nat) (rest : List Char) : Prop :=
  ∀ c ∈ rest.head?, digit? base c = none

theorem ends_nil (base : Nat) : Ends base [] := by
  intro c hc
  cases hc

theorem ends_cons (h : digit? base c = none) : Ends base (c :: rest) := by
  intro d hd
  cases hd
  exact h

theorem digits_of_ends (h : Ends base rest) : digits base rest = ([], rest) := by
  cases rest with
  | nil => rfl
  | cons c rest => simp only [digits, h c rfl]

theorem digit?_digitChar {d : Nat} (hbase : base ≤ 16) (h : d < base) : digit? base (Nat.digitChar d) = some d := by
  have hall : ∀ d < 16, digit? 16 (Nat.digitChar d) = some d := by decide
  have hd := hall d (by omega)
  obtain ⟨hvalue, -⟩ := Option.filter_eq_some_iff.mp hd
  exact Option.filter_eq_some_iff.mpr ⟨hvalue, decide_eq_true h⟩

theorem value_concat (ds : List Nat) (d : Nat) : value base (ds ++ [d]) = base * value base ds + d := by
  simp [value, List.foldl_append]

/-- The digits that are written for a number are read as digits of this number, without a zero in front. -/
theorem exists_digits_toDigits (hone : 1 < base) (hbase : base ≤ 16) (n : Nat) :
    ∃ ds,
      (∀ rest, digits base (Nat.toDigits base n ++ rest) = (ds ++ (digits base rest).1, (digits base rest).2)) ∧
      ds.length = (Nat.toDigits base n).length ∧ value base ds = n ∧ (ds.head? = some 0 → n = 0) := by
  induction n using Nat.strongRecOn with
  | ind n ih =>
      rcases Nat.lt_or_ge n base with hlt | hge
      · refine ⟨[n], ?_, by simp [Nat.toDigits_of_lt_base hlt], by simp [value], by simp⟩
        intro rest
        rw [Nat.toDigits_of_lt_base hlt]
        simp [digits, digit?_digitChar hbase hlt]
      · have hmod : n % base < base := Nat.mod_lt _ (by omega)
        have hdiv : 0 < n / base := Nat.div_pos hge (by omega)
        obtain ⟨ds, hread, hlength, hvalue, hhead⟩ := ih (n / base) (Nat.div_lt_self (by omega) hone)
        rw [Nat.toDigits_of_base_le hone hge]
        refine ⟨ds ++ [n % base], ?_, by simp [hlength], ?_, ?_⟩
        · intro rest
          rw [List.append_assoc, hread]
          simp [digits, digit?_digitChar hbase hmod]
        · rw [value_concat, hvalue]
          exact Nat.div_add_mod n base
        · intro hzero
          have hpos : 0 < ds.length := by rw [hlength]; exact Nat.length_toDigits_pos
          rw [List.head?_append, List.head?_eq_some_head (List.length_pos_iff.mp hpos), Option.some_or] at hzero
          have := hhead ((List.head?_eq_some_head _).trans hzero)
          omega

theorem isSome_digit?_of_mem_toDigits (hone : 1 < base) (hbase : base ≤ 16) (h : c ∈ Nat.toDigits base n) :
    (digit? base c).isSome := by
  induction n using Nat.strongRecOn with
  | ind n ih =>
      rcases Nat.lt_or_ge n base with hlt | hge
      · rw [Nat.toDigits_of_lt_base hlt, List.mem_singleton] at h
        simp [h, digit?_digitChar hbase hlt]
      · rw [Nat.toDigits_of_base_le hone hge, List.mem_append, List.mem_singleton] at h
        rcases h with hfront | rfl
        · exact ih (n / base) (Nat.div_lt_self (by omega) hone) hfront
        · simp [digit?_digitChar hbase (Nat.mod_lt n (Nat.lt_of_succ_lt hone))]

/-! ## Numbers -/

theorem number_toDigits {bound : Nat} (hn : n < bound) (h : Ends 10 rest) :
    number 10 bound (Nat.toDigits 10 n ++ rest) = some (n, rest) := by
  obtain ⟨ds, hread, hlength, hvalue, -⟩ := exists_digits_toDigits (by decide : 1 < 10) (by decide) n
  have hpos : 0 < ds.length := by rw [hlength]; exact Nat.length_toDigits_pos
  rw [number, hread, digits_of_ends h]
  cases ds with
  | nil => cases hpos
  | cons d ds => simp [hvalue, hn]

theorem octet_toDigits (b : UInt8) (h : Ends 10 rest) : octet (Nat.toDigits 10 b.toNat ++ rest) = some (b, rest) := by
  obtain ⟨ds, hread, hlength, hvalue, hhead⟩ := exists_digits_toDigits (by decide : 1 < 10) (by decide) b.toNat
  have hpos : 0 < ds.length := by rw [hlength]; exact Nat.length_toDigits_pos
  have hbyte : b.toNat < 256 := b.toNat_lt
  have hthree : ds.length ≤ 3 := by
    rw [hlength, Nat.length_toDigits_le_iff (by decide) (by decide)]
    omega
  have hzero : ds.head? = some 0 → ds.length = 1 := by
    intro hds
    rw [hlength, hhead hds]
    rfl
  rw [octet, hread, digits_of_ends h]
  cases ds with
  | nil => cases hpos
  | cons d ds =>
      simp only [List.append_nil, hvalue]
      rw [if_neg]
      · simp
      · simp only [Bool.or_eq_true, Bool.and_eq_true, decide_eq_true_eq, beq_iff_eq, not_or, not_and, Nat.not_lt]
        exact ⟨⟨hthree, fun hds => Nat.le_of_eq (hzero hds)⟩, by omega⟩

theorem group_toDigits (g : UInt16) (h : Ends 16 rest) : group (Nat.toDigits 16 g.toNat ++ rest) = some (g, rest) := by
  obtain ⟨ds, hread, hlength, hvalue, -⟩ := exists_digits_toDigits (by decide : 1 < 16) (by decide) g.toNat
  have hpos : 0 < ds.length := by rw [hlength]; exact Nat.length_toDigits_pos
  have hword : g.toNat < 65536 := g.toNat_lt
  have hfour : ds.length ≤ 4 := by
    rw [hlength, Nat.length_toDigits_le_iff (by decide) (by decide)]
    omega
  rw [group, hread, digits_of_ends h]
  cases ds with
  | nil => cases hpos
  | cons d ds =>
      simp only [List.append_nil, hvalue]
      rw [if_neg (Nat.not_lt.mpr hfour)]
      simp

/-- A text inside of another one is written as it is. -/
theorem toString_text (text : String) : toString text = text := rfl

end AddressText

open AddressText

/-! ## Addresses of four bytes -/

theorem Ipv4.toList_text (ip : Ipv4) :
    ip.text.toList = Nat.toDigits 10 ip.a.toNat ++ '.' :: (Nat.toDigits 10 ip.b.toNat ++ '.' ::
      (Nat.toDigits 10 ip.c.toNat ++ '.' :: Nat.toDigits 10 ip.d.toNat)) := by
  simp [Ipv4.text, toString_text]

namespace AddressText

variable {cs rest : List Char}

theorem eq_cons_of_char {c : Char} (h : char c cs = some rest) : cs = c :: rest := by
  cases cs with
  | nil => cases h
  | cons d cs =>
      rw [char] at h
      split at h
      · next heq =>
          rw [heq, Option.some.inj h]
      · cases h

theorem ipv4_text (ip : Ipv4) (h : Ends 10 rest) : ipv4 (ip.text.toList ++ rest) = some (ip, rest) := by
  have hdot : ∀ more, Ends 10 ('.' :: more) := fun more => ends_cons rfl
  simp [ipv4, Ipv4.toList_text, octet_toDigits, hdot, h, char]

theorem rest_of_octet {b : UInt8} (h : octet cs = some (b, rest)) : (digits 10 cs).2 = rest := by
  unfold octet at h
  split at h
  · cases h
  · next ds more hne hdigits =>
      split at h
      · cases h
      · rw [hdigits]
        exact (Prod.mk.inj (Option.some.inj h)).2

/-- Without a point behind the digits in front there is no address of four bytes. -/
theorem ipv4_eq_none (h : (digits 10 cs).2.head? ≠ some '.') : ipv4 cs = none := by
  unfold ipv4
  cases hoctet : octet cs with
  | none => rfl
  | some read =>
      obtain ⟨b, rest⟩ := read
      rw [rest_of_octet hoctet] at h
      cases hchar : char '.' rest with
      | none => simp [hchar]
      | some more =>
          rw [eq_cons_of_char hchar] at h
          exact absurd rfl h

theorem ipv4_of_ends (h : Ends 10 cs) : ipv4 cs = none := by
  have hoctet : octet cs = none := by rw [octet, digits_of_ends h]
  simp [ipv4, hoctet]

/-! ## Groups -/

theorem Ends.decimal (h : Ends 16 rest) : Ends 10 rest := by
  intro c hc
  have hnone := h c hc
  rw [digit?, Option.filter_eq_none_iff] at hnone ⊢
  intro d hd
  have hlarge := hnone d hd
  simp only [decide_eq_true_eq] at hlarge ⊢
  omega

theorem group_of_ends (h : Ends 16 cs) : group cs = none := by
  rw [group, digits_of_ends h]

theorem head?_digits_append (hcs : '.' ∉ cs) (h : (digits 10 rest).2.head? ≠ some '.') :
    (digits 10 (cs ++ rest)).2.head? ≠ some '.' := by
  induction cs with
  | nil => exact h
  | cons c cs ih =>
      rw [List.mem_cons, not_or] at hcs
      rw [List.cons_append, digits]
      split
      · exact ih hcs.2
      · intro heq
        exact hcs.1 (Option.some.inj heq).symm

/-- A group is not taken for the first number of an address of four bytes. -/
theorem ipv4_of_group (g : UInt16) (h : Ends 16 rest) (hpoint : rest.head? ≠ some '.') :
    ipv4 (Nat.toDigits 16 g.toNat ++ rest) = none := by
  apply ipv4_eq_none
  apply head?_digits_append
  · intro hmem
    have hdigit := isSome_digit?_of_mem_toDigits (by decide) (by decide) hmem
    exact absurd hdigit (by decide)
  · rwa [digits_of_ends h.decimal]

/-- Neither a group nor a point comes next. -/
structure Closed (rest : List Char) : Prop where
  digit : Ends 16 rest
  point : rest.head? ≠ some '.'
  colon : ∀ more, rest = ':' :: more → Ends 16 more

theorem closed_nil : Closed [] where
  digit := ends_nil 16
  point := by simp
  colon := by simp

theorem closed_cons {c : Char} (hdigit : digit? 16 c = none) (hpoint : c ≠ '.') (hcolon : c ≠ ':') :
    Closed (c :: rest) where
  digit := ends_cons hdigit
  point := by simpa using hpoint
  colon more hmore := absurd (List.cons.inj hmore).1 hcolon

theorem groups_of_closed (h : Closed rest) (first : Bool) (room : Nat) :
    groups first room rest = ([], false, rest) := by
  cases room with
  | zero => rfl
  | succ room =>
      have hnothing : ∀ inner, Ends 16 inner →
          (if room = 0 then none else ipv4 inner) = none ∧ group inner = none := by
        intro inner hinner
        refine ⟨?_, group_of_ends hinner⟩
        rw [ipv4_of_ends hinner.decimal, ite_self]
      cases first with
      | true =>
          obtain ⟨hip, hgroup⟩ := hnothing rest h.digit
          simp [groups, hip, hgroup]
      | false =>
          cases hcolon : char ':' rest with
          | none => simp [groups, hcolon]
          | some inner =>
              obtain ⟨hip, hgroup⟩ := hnothing inner (h.colon inner (eq_cons_of_char hcolon))
              simp [groups, hcolon, hip, hgroup]

/-- A group is read, and what follows it. -/
theorem groups_of_group {first : Bool} {room : Nat} {inner : List Char} {g : UInt16}
    (hinner : (if first then some cs else char ':' cs) = some inner) (hip : ipv4 inner = none)
    (hgroup : group inner = some (g, rest)) :
    groups first (room + 1) cs = (g :: (groups false room rest).1, (groups false room rest).2) := by
  have hnone : (if room = 0 then none else ipv4 inner) = none := by rw [hip, ite_self]
  simp [groups, hinner, hnone, hgroup]

end AddressText

/-! ## Addresses of eight groups -/

namespace Ipv6

/-- Groups as they are written behind another one. -/
def following (gs : List UInt16) : List Char :=
  gs.flatMap fun g => ':' :: Nat.toDigits 16 g.toNat

theorem toList_joined_cons (g : UInt16) (gs : List UInt16) :
    (joined (g :: gs)).toList = Nat.toDigits 16 g.toNat ++ following gs := by
  induction gs generalizing g with
  | nil => simp [joined, group, following]
  | cons h gs ih =>
      have hrest := ih h
      rw [joined, List.map_cons] at hrest
      rw [joined, List.map_cons, List.map_cons, String.intercalate_cons_cons, String.toList_append,
        String.toList_append, hrest]
      simp [group, following]

end Ipv6

namespace AddressText

open Ipv6

variable {rest : List Char} {gs front back : List UInt16} {room : Nat}

theorem ends_following (gs : List UInt16) (h : Ends 16 rest) : Ends 16 (following gs ++ rest) := by
  cases gs with
  | nil => exact h
  | cons g gs => exact ends_cons rfl

theorem head?_following_ne (gs : List UInt16) (h : rest.head? ≠ some '.') :
    (following gs ++ rest).head? ≠ some '.' := by
  cases gs with
  | nil => exact h
  | cons g gs => simp [following]

/-- Groups are not taken for an address of four bytes. -/
theorem ipv4_joined (gs : List UInt16) (h : Ends 16 rest) (hpoint : rest.head? ≠ some '.') :
    ipv4 ((joined gs).toList ++ rest) = none := by
  cases gs with
  | nil => exact ipv4_of_ends h.decimal
  | cons g gs =>
      rw [toList_joined_cons, List.append_assoc]
      exact ipv4_of_group g (ends_following gs h) (head?_following_ne gs hpoint)

theorem groups_following (hroom : gs.length ≤ room) (h : Closed rest) :
    groups false room (following gs ++ rest) = (gs, false, rest) := by
  induction gs generalizing room with
  | nil => exact groups_of_closed h false room
  | cons g gs ih =>
      obtain ⟨room, rfl⟩ := Nat.exists_eq_add_of_le' (Nat.le_trans (Nat.succ_pos _) hroom)
      have hends := ends_following gs h.digit
      have hpoint := head?_following_ne gs h.point
      have hinner : (if false then some (following (g :: gs) ++ rest) else char ':' (following (g :: gs) ++ rest))
          = some (Nat.toDigits 16 g.toNat ++ (following gs ++ rest)) := by
        simp [following, char]
      rw [groups_of_group hinner (ipv4_of_group g hends hpoint) (group_toDigits g hends),
        ih (Nat.le_of_succ_le_succ hroom)]

theorem groups_joined (hroom : gs.length ≤ room) (h : Closed rest) :
    groups true room ((joined gs).toList ++ rest) = (gs, false, rest) := by
  cases gs with
  | nil => exact groups_of_closed h true room
  | cons g gs =>
      obtain ⟨room, rfl⟩ := Nat.exists_eq_add_of_le' (Nat.le_trans (Nat.succ_pos _) hroom)
      have hends := ends_following gs h.digit
      have hpoint := head?_following_ne gs h.point
      rw [toList_joined_cons, List.append_assoc,
        groups_of_group rfl (ipv4_of_group g hends hpoint) (group_toDigits g hends),
        groups_following (Nat.le_of_succ_le_succ hroom) h]

theorem closed_colons {cs : List Char} : Closed (':' :: ':' :: cs) where
  digit := ends_cons rfl
  point := by simp
  colon more hmore := by
    cases hmore
    exact ends_cons rfl

theorem around_eq {ip : Ipv6}
    (h : ip.groups.toList = front ++ (List.replicate (8 - (front.length + back.length)) 0 ++ back)) :
    around front back = ip := by
  obtain ⟨groups⟩ := ip
  simp only [around, List.append_assoc, ← h, Ipv6.mk.injEq]
  apply Vector.ext
  intro i hi
  simp

theorem ipv6_around {cs : List Char} {dotted : Bool} (hlength : front.length < 8)
    (hback : groups true (7 - front.length) cs = (back, dotted, rest)) :
    ipv6 ((joined front).toList ++ ':' :: ':' :: cs) = some (around front back, rest) := by
  rw [ipv6, groups_joined (Nat.le_of_lt hlength) closed_colons]
  simp [Nat.ne_of_lt hlength, char, hback]

end AddressText

namespace Ipv6

variable {ip : Ipv6}

/-! ## Runs of zeros -/

theorem eq_replicate_zeros (gs : List UInt16) : gs = List.replicate (zeros gs) 0 ++ gs.drop (zeros gs) := by
  have hzero : gs.takeWhile (· == 0) = List.replicate (zeros gs) 0 := by
    rw [zeros, List.eq_replicate_iff]
    refine ⟨rfl, ?_⟩
    intro g hg
    simpa using List.all_eq_true.mp List.all_takeWhile g hg
  have hdrop : gs.drop (zeros gs) = gs.dropWhile (· == 0) := by
    calc gs.drop (zeros gs)
        = (gs.takeWhile (· == 0) ++ gs.dropWhile (· == 0)).drop (gs.takeWhile (· == 0)).length := by
          rw [List.takeWhile_append_dropWhile, zeros]
      _ = gs.dropWhile (· == 0) := List.drop_left
  rw [hdrop, ← hzero, List.takeWhile_append_dropWhile]

/-- The longest run is one of zeros. -/
theorem longestRun_spec (i : Nat) (gs : List UInt16) :
    ∃ k, (longestRun i gs).1 = i + k ∧
      gs = gs.take k ++ (List.replicate (longestRun i gs).2 0 ++ gs.drop (k + (longestRun i gs).2)) := by
  induction gs generalizing i with
  | nil => exact ⟨0, rfl, rfl⟩
  | cons g gs ih =>
      rw [longestRun]
      split
      · exact ⟨0, rfl, by simpa using eq_replicate_zeros (g :: gs)⟩
      · obtain ⟨k, hstart, hgroups⟩ := ih (i + 1)
        refine ⟨k + 1, by omega, ?_⟩
        rw [Nat.add_right_comm, List.take_succ_cons, List.drop_succ_cons, List.cons_append, ← hgroups]

/-! ## An address of four bytes inside -/

theorem toGroups_ofGroups (high low : UInt16) : (Ipv4.ofGroups high low).toGroups = (high, low) := by
  have hword : ∀ w : UInt16, (w >>> 8 % 256) <<< 8 ||| w % 256 = w := by
    intro w
    have hlt : w.toNat < 65536 := w.toNat_lt
    apply UInt16.toNat_inj.mp
    have hlow : w.toNat % 256 < 2 ^ 8 := Nat.mod_lt _ (by decide)
    have hhigh : (w.toNat / 256 % 256) <<< 8 < 65536 := by rw [Nat.shiftLeft_eq]; omega
    simp only [UInt16.toNat_or, UInt16.toNat_shiftLeft, UInt16.toNat_mod, UInt16.toNat_shiftRight,
      UInt16.reduceToNat, Nat.reduceMod, Nat.reducePow, Nat.shiftRight_eq_div_pow, Nat.mod_eq_of_lt hhigh]
    rw [← Nat.shiftLeft_add_eq_or_of_lt hlow, Nat.shiftLeft_eq]
    omega
  simp [Ipv4.ofGroups, Ipv4.toGroups, hword]

theorem mapped?_eq_some {inner : Ipv4} (h : ip.mapped? = some inner) :
    ip.groups.toList = [0, 0, 0, 0, 0, 0xffff] ++ [inner.toGroups.1, inner.toGroups.2] := by
  unfold mapped? at h
  split at h
  · next high low hgroups =>
      rw [hgroups, ← Option.some.inj h, toGroups_ofGroups]
      rfl
  · cases h

end Ipv6

namespace AddressText

open Ipv6

variable {rest : List Char}

theorem groups_dotted (ip : Ipv4) (h : Ends 10 rest) :
    groups true 7 ("ffff:".toList ++ (ip.text.toList ++ rest))
      = ([0xffff, ip.toGroups.1, ip.toGroups.2], true, rest) := by
  have hdigits : "ffff:".toList ++ (ip.text.toList ++ rest)
      = Nat.toDigits 16 (0xffff : UInt16).toNat ++ ':' :: (ip.text.toList ++ rest) := by
    have hgroup : Nat.toDigits 16 (0xffff : UInt16).toNat = ['f', 'f', 'f', 'f'] := by decide
    rw [hgroup]
    simp
  have hends : Ends 16 (':' :: (ip.text.toList ++ rest)) := ends_cons rfl
  have hback : groups false 6 (':' :: (ip.text.toList ++ rest)) = ([ip.toGroups.1, ip.toGroups.2], true, rest) := by
    simp [groups, char, ipv4_text ip h]
  rw [hdigits, groups_of_group rfl (ipv4_of_group 0xffff hends (by simp)) (group_toDigits 0xffff hends), hback]

theorem ipv6_whole (ip : Ipv6) (h : Closed rest) :
    ipv6 ((joined ip.groups.toList).toList ++ rest) = some (ip, rest) := by
  have hlength : ip.groups.toList.length = 8 := Vector.length_toList
  have haround : around ip.groups.toList [] = ip := around_eq (by simp)
  rw [ipv6, groups_joined (Nat.le_of_eq hlength) h]
  simp [hlength, haround]

/-- The groups around a run have room for one more, which the colons take. -/
theorem ipv6_run {ip : Ipv6} {front back : List UInt16} {length : Nat}
    (hgroups : ip.groups.toList = front ++ (List.replicate length 0 ++ back)) (hlong : 1 < length) (h : Closed rest) :
    ipv6 ((joined front ++ "::" ++ joined back).toList ++ rest) = some (ip, rest) := by
  have htotal : 8 = front.length + (length + back.length) := by
    have hlength := congrArg List.length hgroups
    simpa using hlength
  have hrun : length = 8 - (front.length + back.length) := by omega
  rw [hrun] at hgroups
  have hback : groups true (7 - front.length) ((joined back).toList ++ rest) = (back, false, rest) :=
    groups_joined (by omega) h
  have hread := ipv6_around (by omega) hback
  rw [around_eq hgroups] at hread
  simpa using hread

theorem ipv6_text (ip : Ipv6) (h : Closed rest) : ipv6 (ip.text.toList ++ rest) = some (ip, rest) := by
  unfold Ipv6.text
  split
  · next inner hinner =>
      have hlength : ([] : List UInt16).length < 8 := by decide
      have hread := ipv6_around hlength (groups_dotted inner h.digit.decimal)
      have hcolons : "::ffff:".toList = (joined []).toList ++ ':' :: ':' :: "ffff:".toList := by simp [joined]
      rw [around_eq (mapped?_eq_some hinner)] at hread
      simpa [hcolons] using hread
  · obtain ⟨start, hstart, hsplit⟩ := longestRun_spec 0 ip.groups.toList
    simp only
    split
    · next hlong =>
        rw [hstart, Nat.zero_add]
        exact ipv6_run hsplit hlong h
    · exact ipv6_whole ip h

theorem ipv6_text_alone (ip : Ipv6) : ipv6 ip.text.toList = some (ip, []) := by
  simpa using ipv6_text ip closed_nil

/-- The first colon of an address of eight groups stands behind the first of its groups. -/
theorem exists_text_eq (ip : Ipv6) : ∃ gs cs, ip.text.toList = (joined gs).toList ++ ':' :: cs := by
  unfold Ipv6.text
  split
  · exact ⟨[], _, by simp [joined]; rfl⟩
  · obtain ⟨start, hstart, -⟩ := longestRun_spec 0 ip.groups.toList
    simp only
    split
    · exact ⟨_, _, by simp; rfl⟩
    · have hlength : ip.groups.toList.length = 8 := Vector.length_toList
      cases hgroups : ip.groups.toList with
      | nil => simp [hgroups] at hlength
      | cons g gs =>
          cases gs with
          | nil => simp [hgroups] at hlength
          | cons h gs =>
              refine ⟨[g], Nat.toDigits 16 h.toNat ++ following gs, ?_⟩
              simp [toList_joined_cons, following]

/-- An address of eight groups is not taken for one of four bytes. -/
theorem ipv4_ipv6_text (ip : Ipv6) (rest : List Char) : ipv4 (ip.text.toList ++ rest) = none := by
  obtain ⟨gs, cs, htext⟩ := exists_text_eq ip
  rw [htext, List.append_assoc]
  exact ipv4_joined gs (ends_cons rfl) (by simp)

/-- An address of eight groups does not begin with a bracket. -/
theorem char_bracket_text (ip : Ipv6) (rest : List Char) : char '[' (ip.text.toList ++ rest) = none := by
  have hread := ipv6_text_alone ip
  cases htext : ip.text.toList with
  | nil =>
      rw [htext] at hread
      cases hread
  | cons c cs =>
      have hne : '[' ≠ c := by
        intro heq
        rw [htext, ← heq, ipv6, groups_of_closed (closed_cons rfl (by decide) (by decide))] at hread
        simp [char] at hread
      rw [List.cons_append, char, if_neg hne]

end AddressText

/-! ## Socket addresses -/

namespace SocketAddress

theorem toList_text_v4 (ip : Ipv4) (p : UInt16) :
    (SocketAddress.v4 ip p).text.toList = ip.text.toList ++ ':' :: Nat.toDigits 10 p.toNat := by
  simp [text, toString_text]

theorem toList_text_v6 (ip : Ipv6) (z : UInt32) (p : UInt16) :
    (SocketAddress.v6 ip z p).text.toList =
      '[' :: (ip.text.toList ++ (if z = 0 then [] else '%' :: Nat.toDigits 10 z.toNat)
        ++ ']' :: ':' :: Nat.toDigits 10 p.toNat) := by
  rw [text]
  split <;> simp [toString_text]

end SocketAddress

namespace AddressText

open SocketAddress

theorem port_toDigits (p : UInt16) : port (':' :: Nat.toDigits 10 p.toNat) = some (p, []) := by
  have hlt : p.toNat < UInt16.size := p.toNat_lt
  have hnumber := number_toDigits hlt (ends_nil 10)
  rw [List.append_nil] at hnumber
  simp [port, char, hnumber]

theorem socketV4_text (ip : Ipv4) (p : UInt16) :
    socketV4 (SocketAddress.v4 ip p).text.toList = some (.v4 ip p, []) := by
  have hends : Ends 10 (':' :: Nat.toDigits 10 p.toNat) := ends_cons rfl
  rw [toList_text_v4]
  simp [socketV4, ipv4_text ip hends, port_toDigits]

theorem zone_bracket (cs : List Char) : zone (']' :: cs) = (0, ']' :: cs) := by
  simp [zone, char]

theorem zone_toDigits (z : UInt32) (cs : List Char) :
    zone ('%' :: (Nat.toDigits 10 z.toNat ++ ']' :: cs)) = (z, ']' :: cs) := by
  have hnumber : number 10 UInt32.size (Nat.toDigits 10 z.toNat ++ ']' :: cs) = some (z.toNat, ']' :: cs) :=
    number_toDigits z.toNat_lt (ends_cons rfl)
  simp [zone, char, hnumber]

theorem socketV6_text (ip : Ipv6) (z : UInt32) (p : UInt16) :
    socketV6 (SocketAddress.v6 ip z p).text.toList = some (.v6 ip z p, []) := by
  have hread : ∀ c cs, digit? 16 c = none → c ≠ '.' → c ≠ ':' →
      ipv6 (ip.text.toList ++ c :: cs) = some (ip, c :: cs) := by
    intro c cs hdigit hpoint hcolon
    exact ipv6_text ip (closed_cons hdigit hpoint hcolon)
  have hbracket : digit? 16 ']' = none := rfl
  have hpercent : digit? 16 '%' = none := rfl
  rw [toList_text_v6]
  split
  · next hzone =>
      simp [socketV6, char, hread, hbracket, zone_bracket, port_toDigits, hzone]
  · simp [socketV6, char, hread, hpercent, zone_toDigits, port_toDigits]

end AddressText

/-! ## Texts -/

theorem Ipv4.parse?_text (ip : Ipv4) : Ipv4.parse? ip.text = some ip := by
  have hread := ipv4_text ip (ends_nil 10)
  rw [List.append_nil] at hread
  rw [Ipv4.parse?, whole, hread]

namespace Ipv6

theorem ipv4_parse?_text (ip : Ipv6) : Ipv4.parse? ip.text = none := by
  have hread := ipv4_ipv6_text ip []
  rw [List.append_nil] at hread
  rw [Ipv4.parse?, whole, hread]

theorem parse?_text (ip : Ipv6) : Ipv6.parse? ip.text = some ip := by
  rw [Ipv6.parse?, whole, ipv6_text_alone]

end Ipv6

/-- An address is read back as it was written. -/
theorem IpAddress.parse?_text (ip : IpAddress) : IpAddress.parse? ip.text = some ip := by
  cases ip with
  | v4 ip => simp [IpAddress.parse?, IpAddress.text, Ipv4.parse?_text]
  | v6 ip => simp [IpAddress.parse?, IpAddress.text, Ipv6.ipv4_parse?_text, Ipv6.parse?_text]

namespace SocketAddress

/-- A socket address is read back as it was written. -/
theorem parse?_text (address : SocketAddress) : SocketAddress.parse? address.text = some address := by
  cases address with
  | v4 ip p =>
      rw [SocketAddress.parse?, whole, socketV4_text]
      rfl
  | v6 ip z p =>
      have hfour : socketV4 (SocketAddress.v6 ip z p).text.toList = none := by
        rw [toList_text_v6, socketV4, ipv4_of_ends (ends_cons rfl)]
        rfl
      rw [SocketAddress.parse?, whole, hfour, socketV6_text]
      rfl

end SocketAddress

end LogIntake
