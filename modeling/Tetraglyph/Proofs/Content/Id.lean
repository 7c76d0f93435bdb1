/-
  Tetraglyph.Proofs.Content.Id
  ────────────────────────────
  **TEXTS OF CONTENT IDS.**

  Bytes are digits in base 256, and sextets are digits in base 64.  Read as
  digits BEHIND THE POINT, the bytes of an id and their sextets are the same
  fraction: three bytes and four sextets are equally many bits, and the zeros
  which fill up the last sextet weigh nothing.  Words of one length are
  ordered as the numbers they write, so regrouping the bits keeps the order,
  and so does spelling the sextets in an alphabet that increases.

      number   — the number that digits write, the most significant first

  Main results

      lt_iff_number_lt     — words of digits are ordered as their numbers
      number_sextets       — bytes and their sextets are the same fraction
      sextets_lt_iff       — regrouping keeps the order
      sextetByte_lt_iff    — the alphabet increases
      text_keeps_order     — the text of an id is faithful and in order
-/
import Mathlib.Data.List.Lex
import Mathlib.Tactic.Ring
import Tetraglyph.Content.Id
import Tetraglyph.Proofs.Text.Utf8

namespace Tetraglyph.Content

/-! ## §1. Words of digits. -/

/-- The number that digits in base `b` write, the most significant first. -/
def number (b : Nat) : List Nat → Nat
  | [] => 0
  | d :: ds => d * b ^ ds.length + number b ds

theorem number_lt {b : Nat} {ds : List Nat} (h : ∀ d ∈ ds, d < b) :
    number b ds < b ^ ds.length := by
  induction ds with
  | nil => exact Nat.one_pos
  | cons d ds ih =>
      have hd : d + 1 ≤ b := h d List.mem_cons_self
      have hds := ih fun x hx => h x (List.mem_cons_of_mem d hx)
      calc d * b ^ ds.length + number b ds < d * b ^ ds.length + b ^ ds.length := by omega
        _ = (d + 1) * b ^ ds.length := by ring
        _ ≤ b * b ^ ds.length := Nat.mul_le_mul_right _ hd
        _ = b ^ (ds.length + 1) := by ring

/-- A leading digit decides, and an equal one leaves it to the rest. -/
theorem leading_digit {w x y m n : Nat} (hm : m < w) (hn : n < w) :
    x * w + m < y * w + n ↔ x < y ∨ x = y ∧ m < n := by
  rcases Nat.lt_trichotomy x y with h | rfl | h
  · have hstep : (x + 1) * w ≤ y * w := Nat.mul_le_mul_right w h
    rw [Nat.succ_mul] at hstep
    constructor
    · exact fun _ => .inl h
    · intro _
      omega
  · omega
  · have hstep : (y + 1) * w ≤ x * w := Nat.mul_le_mul_right w h
    rw [Nat.succ_mul] at hstep
    omega

/-- **Words of digits are ordered as the numbers they write**, if they are
equally long. -/
theorem lt_iff_number_lt {b : Nat} {xs ys : List Nat} (hlen : xs.length = ys.length)
    (hx : ∀ x ∈ xs, x < b) (hy : ∀ y ∈ ys, y < b) : xs < ys ↔ number b xs < number b ys := by
  induction xs generalizing ys with
  | nil =>
      obtain rfl : ys = [] := List.length_eq_zero_iff.1 hlen.symm
      exact ⟨fun h => absurd h (List.lt_irrefl []), fun h => absurd h (Nat.lt_irrefl 0)⟩
  | cons x xs ih =>
      obtain ⟨y, ys, rfl⟩ := List.exists_cons_of_length_eq_add_one hlen.symm
      have hlen : xs.length = ys.length := Nat.succ.inj hlen
      have hx' : ∀ d ∈ xs, d < b := fun d hd => hx d (List.mem_cons_of_mem x hd)
      have hy' : ∀ d ∈ ys, d < b := fun d hd => hy d (List.mem_cons_of_mem y hd)
      have hm := number_lt hx'
      rw [hlen] at hm
      show _ ↔ x * b ^ xs.length + number b xs < y * b ^ ys.length + number b ys
      rw [List.cons_lt_cons_iff, ih hlen hx' hy', hlen, leading_digit hm (number_lt hy')]

/-- Words are ordered as those with other letters in their place, if the
letters are. -/
theorem map_lt_map_iff {α β : Type} [LT α] [LT β] {f : α → β} {p : α → Prop}
    (hlt : ∀ {x y}, p x → p y → (f x < f y ↔ x < y))
    (heq : ∀ {x y}, p x → p y → (f x = f y ↔ x = y)) {xs ys : List α}
    (hx : ∀ x ∈ xs, p x) (hy : ∀ y ∈ ys, p y) : xs.map f < ys.map f ↔ xs < ys := by
  induction xs generalizing ys with
  | nil => cases ys <;> simp
  | cons x xs ih =>
      cases ys with
      | nil => simp
      | cons y ys =>
          have hpx := hx x List.mem_cons_self
          have hpy := hy y List.mem_cons_self
          rw [List.map_cons, List.map_cons, List.cons_lt_cons_iff, List.cons_lt_cons_iff,
            hlt hpx hpy, heq hpx hpy, ih (fun x hx' => hx x (List.mem_cons_of_mem _ hx'))
              fun y hy' => hy y (List.mem_cons_of_mem _ hy')]

/-! ## §2. Sextets. -/

theorem length_sextets (bs : Bytes) : (sextets bs).length = (4 * bs.length + 2) / 3 := by
  fun_induction sextets bs with
  | case1 a b c rest ih =>
      simp only [List.length_cons, ih]
      omega
  | case2 a b => simp
  | case3 a => simp
  | case4 => rfl

theorem sextets_lt (bs : Bytes) : ∀ n ∈ sextets bs, n < 64 := by
  fun_induction sextets bs with
  | case1 a b c rest ih =>
      have ha := a.toNat_lt
      have hb := b.toNat_lt
      have hc := c.toNat_lt
      simp only [List.forall_mem_cons]
      exact ⟨by omega, by omega, by omega, by omega, ih⟩
  | case2 a b =>
      have ha := a.toNat_lt
      have hb := b.toNat_lt
      simp only [List.forall_mem_cons]
      exact ⟨by omega, by omega, by omega, by simp⟩
  | case3 a =>
      have ha := a.toNat_lt
      simp only [List.forall_mem_cons]
      exact ⟨by omega, by omega, by simp⟩
  | case4 => simp

/-- Three bytes are the number that their four sextets are. -/
theorem four_sextets (a b c : Nat) :
    ((a / 4 * 64 + (a % 4 * 16 + b / 16)) * 64 + (b % 16 * 4 + c / 64)) * 64 + c % 64
      = (a * 256 + b) * 256 + c := by omega

/-- **Bytes and their sextets are the same fraction.** -/
theorem number_sextets (bs : Bytes) :
    number 64 (sextets bs) * 256 ^ bs.length
      = number 256 (bs.map UInt8.toNat) * 64 ^ (sextets bs).length := by
  fun_induction sextets bs with
  | case1 a b c rest ih =>
      have hfour := four_sextets a.toNat b.toNat c.toNat
      simp only [number, List.map_cons, List.length_cons, List.length_map]
      -- the sextets of these three bytes, and the number of all others
      generalize a.toNat / 4 = s, a.toNat % 4 * 16 + b.toNat / 16 = t,
        b.toNat % 16 * 4 + c.toNat / 64 = u, c.toNat % 64 = v at hfour ⊢
      generalize number 64 (sextets rest) = x, (sextets rest).length = m,
        number 256 (rest.map UInt8.toNat) = y at ih ⊢
      calc (s * 64 ^ (m + 1 + 1 + 1) + (t * 64 ^ (m + 1 + 1) + (u * 64 ^ (m + 1) +
              (v * 64 ^ m + x)))) * 256 ^ (rest.length + 1 + 1 + 1)
          = ((((s * 64 + t) * 64 + u) * 64 + v) * 64 ^ m * 256 ^ rest.length +
              x * 256 ^ rest.length) * 256 ^ 3 := by ring
        _ = (((a.toNat * 256 + b.toNat) * 256 + c.toNat) * 64 ^ m * 256 ^ rest.length +
              y * 64 ^ m) * 256 ^ 3 := by rw [hfour, ih]
        _ = (a.toNat * 256 ^ (rest.length + 1 + 1) + (b.toNat * 256 ^ (rest.length + 1) +
              (c.toNat * 256 ^ rest.length + y))) * 64 ^ (m + 1 + 1 + 1 + 1) := by ring
  | case2 a b =>
      simp only [number, List.map_cons, List.map_nil, List.length_cons, List.length_nil]
      omega
  | case3 a =>
      simp only [number, List.map_cons, List.map_nil, List.length_cons, List.length_nil]
      omega
  | case4 => rfl

theorem toNat_lt_of_mem (bs : Bytes) : ∀ n ∈ bs.map UInt8.toNat, n < 256 := by
  intro n hn
  obtain ⟨b, _, rfl⟩ := List.mem_map.1 hn
  exact b.toNat_lt

/-- **Regrouping the bits keeps the order.** -/
theorem sextets_lt_iff {xs ys : Bytes} (hlen : xs.length = ys.length) :
    sextets xs < sextets ys ↔ xs < ys := by
  have hsame : (sextets xs).length = (sextets ys).length := by
    rw [length_sextets, length_sextets, hlen]
  have hbytes : xs.map UInt8.toNat < ys.map UInt8.toNat ↔ xs < ys :=
    map_lt_map_iff (p := fun _ => True) (fun _ _ => UInt8.lt_iff_toNat_lt.symm)
      (fun _ _ => UInt8.toNat_inj) (fun _ _ => trivial) fun _ _ => trivial
  have hx := number_sextets xs
  have hy := number_sextets ys
  rw [hlen] at hx
  rw [hsame] at hx
  calc sextets xs < sextets ys ↔ number 64 (sextets xs) < number 64 (sextets ys) :=
        lt_iff_number_lt hsame (sextets_lt xs) (sextets_lt ys)
    _ ↔ number 64 (sextets xs) * 256 ^ ys.length < number 64 (sextets ys) * 256 ^ ys.length :=
        (Nat.mul_lt_mul_right (Nat.pow_pos (by decide))).symm
    _ ↔ number 256 (xs.map UInt8.toNat) < number 256 (ys.map UInt8.toNat) := by
        rw [hx, hy]
        exact Nat.mul_lt_mul_right (Nat.pow_pos (by decide))
    _ ↔ xs.map UInt8.toNat < ys.map UInt8.toNat :=
        (lt_iff_number_lt (by rw [List.length_map, List.length_map, hlen]) (toNat_lt_of_mem xs)
          (toNat_lt_of_mem ys)).symm
    _ ↔ xs < ys := hbytes

/-! ## §3. The alphabet. -/

/-- The byte of the character for a number below 64. -/
def sextetByte (n : Nat) : UInt8 := (sextetChar n).val.toUInt8

theorem length_alphabet : alphabet.length = 64 := by decide +kernel

theorem alphabet_increases : alphabet.Pairwise (· < ·) :=
  List.isChain_iff_pairwise.1 (by decide +kernel)

theorem alphabet_ascii : ∀ c ∈ alphabet, c.toNat < 128 := by
  have hall : alphabet.all (fun c => decide (c.toNat < 128)) = true := by decide +kernel
  exact fun c hc => of_decide_eq_true (List.all_eq_true.1 hall c hc)

theorem sextetChar_eq {n : Nat} (hn : n < alphabet.length) : sextetChar n = alphabet[n] := by
  unfold sextetChar
  rw [List.getD_eq_getElem?_getD, List.getElem?_eq_getElem hn]
  rfl

theorem sextetChar_mem {n : Nat} (hn : n < 64) : sextetChar n ∈ alphabet := by
  rw [sextetChar_eq (hn.trans_eq length_alphabet.symm)]
  exact List.getElem_mem _

/-- An ASCII character is one byte. -/
theorem toNat_sextetByte {n : Nat} (hn : n < 64) :
    (sextetByte n).toNat = (sextetChar n).toNat := by
  have hascii := alphabet_ascii _ (sextetChar_mem hn)
  unfold sextetByte
  rw [UInt32.toNat_toUInt8]
  exact Nat.mod_eq_of_lt (show (sextetChar n).toNat < 2 ^ 8 by omega)

theorem utf8EncodeChar_sextetChar {n : Nat} (hn : n < 64) :
    String.utf8EncodeChar (sextetChar n) = [sextetByte n] := by
  have hascii := alphabet_ascii _ (sextetChar_mem hn)
  apply String.utf8EncodeChar_eq_singleton
  rw [Char.utf8Size_eq_one_iff, UInt32.le_iff_toNat_le]
  exact Nat.le_of_lt_succ hascii

/-- **The alphabet increases**, byte for byte. -/
theorem sextetByte_lt_iff {m n : Nat} (hm : m < 64) (hn : n < 64) :
    sextetByte m < sextetByte n ↔ m < n := by
  have hforward : ∀ {i j : Nat}, i < 64 → j < 64 → i < j → sextetByte i < sextetByte j := by
    intro i j hi hj hij
    have hi' := hi.trans_eq length_alphabet.symm
    have hj' := hj.trans_eq length_alphabet.symm
    rw [UInt8.lt_iff_toNat_lt, toNat_sextetByte hi, toNat_sextetByte hj, sextetChar_eq hi',
      sextetChar_eq hj']
    exact List.pairwise_iff_getElem.1 alphabet_increases i j hi' hj' hij
  refine ⟨fun h => ?_, hforward hm hn⟩
  by_contra hle
  rcases Nat.lt_or_eq_of_le (Nat.le_of_not_lt hle) with hlt | rfl
  · exact absurd (hforward hn hm hlt) (UInt8.lt_asymm h)
  · exact absurd h (UInt8.lt_irrefl _)

theorem sextetByte_inj {m n : Nat} (hm : m < 64) (hn : n < 64) :
    sextetByte m = sextetByte n ↔ m = n := by
  refine ⟨fun h => ?_, fun h => by rw [h]⟩
  rcases Nat.lt_trichotomy m n with hlt | heq | hlt
  · exact absurd ((sextetByte_lt_iff hm hn).2 hlt) (by rw [h]; exact UInt8.lt_irrefl _)
  · exact heq
  · exact absurd ((sextetByte_lt_iff hn hm).2 hlt) (by rw [h]; exact UInt8.lt_irrefl _)

/-! ## §4. Texts. -/

theorem Id.toList_text (id : Id) : id.text.toList = (sextets id.bytes).map sextetChar :=
  String.toList_ofList

/-- The bytes of a text, one for each sextet. -/
theorem Id.ofText_text (id : Id) : Bytes.ofText id.text = (sextets id.bytes).map sextetByte := by
  rw [Bytes.ofText_eq, id.toList_text, List.flatMap_map]
  have h : ∀ ds : List Nat, (∀ d ∈ ds, d < 64) →
      ds.flatMap (fun d => String.utf8EncodeChar (sextetChar d)) = ds.map sextetByte := by
    intro ds hds
    induction ds with
    | nil => rfl
    | cons d ds ih =>
        rw [List.flatMap_cons, utf8EncodeChar_sextetChar (hds d List.mem_cons_self),
          ih fun x hx => hds x (List.mem_cons_of_mem d hx)]
        rfl
  exact h _ (sextets_lt id.bytes)

/-- **The text of an id keeps the order of its bytes.** -/
theorem Id.text_lt_iff {a b : Id} (hlen : a.bytes.length = b.bytes.length) :
    Bytes.ofText a.text < Bytes.ofText b.text ↔ a.bytes < b.bytes := by
  rw [a.ofText_text, b.ofText_text, map_lt_map_iff sextetByte_lt_iff sextetByte_inj
    (sextets_lt a.bytes) (sextets_lt b.bytes)]
  exact sextets_lt_iff hlen

/-- **The text of an id is faithful and in order.**  Of any two ids of 32
bytes: the text has 43 characters, all of them in the alphabet, and as many
bytes; the ids are the same exactly if their texts are; and the bytes of one
are before those of the other, compared byte by byte from the first on,
exactly if its text is before the other's, compared in the same way. -/
theorem text_keeps_order {a b : Id} (ha : a.bytes.length = 32) (hb : b.bytes.length = 32) :
    a.text.length = 43 ∧ (Bytes.ofText a.text).length = 43 ∧
    (∀ c ∈ a.text.toList, c ∈ alphabet) ∧
    (a = b ↔ a.text = b.text) ∧
    (a.bytes < b.bytes ↔ Bytes.ofText a.text < Bytes.ofText b.text) := by
  have hlen : (sextets a.bytes).length = 43 := by rw [length_sextets, ha]
  have hab : a.bytes.length = b.bytes.length := ha.trans hb.symm
  refine ⟨?_, ?_, ?_, ⟨fun h => by rw [h], fun h => ?_⟩, (Id.text_lt_iff hab).symm⟩
  · rw [← String.length_toList, a.toList_text, List.length_map, hlen]
  · rw [a.ofText_text, List.length_map, hlen]
  · intro c hc
    rw [a.toList_text] at hc
    obtain ⟨n, hn, rfl⟩ := List.mem_map.1 hc
    exact sextetChar_mem (sextets_lt a.bytes n hn)
  · -- of two different ids one is before the other, and so is its text
    have hnot : ∀ {x y : Id}, x.bytes.length = y.bytes.length → x.text = y.text →
        ¬ x.bytes < y.bytes := by
      intro x y hxy htext hlt
      rw [← Id.text_lt_iff hxy, htext] at hlt
      exact List.lt_irrefl _ hlt
    exact congrArg Id.mk (List.le_antisymm (hnot hab.symm h.symm) (hnot hab h))

/-- Two ids which differ in the last two bits of their last byte, and so in a
sextet that is filled up with zeros. -/
theorem text_keeps_order_last :
    let a : Id := ⟨List.replicate 31 0 ++ [1]⟩
    let b : Id := ⟨List.replicate 31 0 ++ [2]⟩
    a.bytes.length = 32 ∧ b.bytes.length = 32 ∧ a.bytes < b.bytes ∧ a.text ≠ b.text ∧
      Bytes.ofText a.text < Bytes.ofText b.text ∧
      a.text.toList = List.replicate 42 '-' ++ ['3'] ∧
      b.text.toList = List.replicate 42 '-' ++ ['7'] := by
  intro a b
  have hlt : a.bytes < b.bytes := by decide +kernel
  have hne : a ≠ b := by decide +kernel
  obtain ⟨_, _, _, hsame, horder⟩ := text_keeps_order (a := a) (b := b) rfl rfl
  exact ⟨rfl, rfl, hlt, fun h => hne (hsame.2 h), horder.1 hlt, by decide +kernel,
    by decide +kernel⟩

end Tetraglyph.Content
