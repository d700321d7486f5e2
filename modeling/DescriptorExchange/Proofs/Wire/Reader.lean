import DescriptorExchange.Wire.Reader

/-!
What a reader has read. A field is read exactly when its encoding stands at the front of the
input, so the same statement serves for reading back what was written and for taking apart what
was read.
-/
namespace DescriptorExchange

theorem toOption_eq_some {ε α : Type} {x : Except ε α} {a : α} : x.toOption = some a ↔ x = .ok a := by
  cases x <;> simp [Except.toOption]

namespace Reader

variable {α β : Type} {field : String} {input rest : Bytes}

theorem bind_eq_ok {reader : Reader α} {next : α → Reader β} {b : β} :
    (reader >>= next) input = .ok (b, rest) ↔
      ∃ a mid, reader input = .ok (a, mid) ∧ next a mid = .ok (b, rest) := by
  change (reader input >>= fun x => next x.1 x.2) = _ ↔ _
  cases reader input with
  | error e => simp [bind, Except.bind]
  | ok x =>
    simp only [bind, Except.bind, Except.ok.injEq]
    constructor
    · intro h
      exact ⟨x.1, x.2, rfl, h⟩
    · rintro ⟨a, mid, rfl, h⟩
      exact h

theorem pure_eq_ok {a b : α} :
    (pure a : Reader α) input = .ok (b, rest) ↔ a = b ∧ input = rest := by
  change Except.ok (a, input) = _ ↔ _
  simp

theorem map_eq_ok {reader : Reader α} {f : α → β} {b : β} :
    (f <$> reader) input = .ok (b, rest) ↔ ∃ a, reader input = .ok (a, rest) ∧ f a = b := by
  change (reader input >>= fun x => Except.ok (f x.1, x.2)) = _ ↔ _
  cases reader input with
  | error e => simp [bind, Except.bind]
  | ok x =>
    simp only [bind, Except.bind, Except.ok.injEq, Prod.ext_iff]
    grind

theorem lift_eq_ok {x : Except WireError α} {a : α} :
    (liftM x : Reader α) input = .ok (a, rest) ↔ x = .ok a ∧ input = rest := by
  change (x >>= fun b => Except.ok (b, input)) = _ ↔ _
  cases x with
  | error e => simp [bind, Except.bind]
  | ok b => simp [bind, Except.bind]

theorem take_eq_ok {count : Nat} {front : Bytes} :
    take field count input = .ok (front, rest) ↔ input = front ++ rest ∧ front.length = count := by
  simp only [take]
  constructor
  · intro h
    split at h
    next hlen =>
      obtain ⟨rfl, rfl⟩ := Prod.mk.inj (Except.ok.inj h)
      exact ⟨(List.take_append_drop count input).symm, hlen⟩
    next => simp at h
  · rintro ⟨rfl, rfl⟩
    simp

theorem number_eq_ok {width n : Nat} :
    number field width input = .ok (n, rest) ↔ n < Nat.pow 256 width ∧
    input = littleEndian width n ++ rest := by
  simp only [number, bind_eq_ok, take_eq_ok, pure_eq_ok]
  constructor
  · rintro ⟨front, _, ⟨rfl, rfl⟩, rfl, rfl⟩
    exact ⟨ofLittleEndian_lt front, by rw [littleEndian_ofLittleEndian]⟩
  · rintro ⟨hn, rfl⟩
    exact ⟨littleEndian width n, rest, ⟨rfl, length_littleEndian width n⟩,
      ofLittleEndian_littleEndian hn, rfl⟩

theorem byte_eq_ok {b : UInt8} : byte field input = .ok (b, rest) ↔ input = b :: rest := by
  simp only [byte, bind_eq_ok, number_eq_ok, pure_eq_ok]
  constructor
  · rintro ⟨n, _, ⟨hn, rfl⟩, rfl, rfl⟩
    rfl
  · rintro rfl
    exact ⟨b.toNat, rest, ⟨b.toNat_lt, by simp [littleEndian]⟩, by simp, rfl⟩

theorem word16_eq_ok {w : UInt16} :
    word16 field input = .ok (w, rest) ↔ input = DescriptorExchange.word16 w ++ rest := by
  simp only [word16, bind_eq_ok, number_eq_ok, pure_eq_ok]
  constructor
  · rintro ⟨n, _, ⟨hn, rfl⟩, rfl, rfl⟩
    rw [DescriptorExchange.word16, UInt16.toNat_ofNat_of_lt' hn]
  · rintro rfl
    exact ⟨w.toNat, rest, ⟨w.toNat_lt, rfl⟩, by simp, rfl⟩

theorem word32_eq_ok {w : UInt32} :
    word32 field input = .ok (w, rest) ↔ input = DescriptorExchange.word32 w ++ rest := by
  simp only [word32, bind_eq_ok, number_eq_ok, pure_eq_ok]
  constructor
  · rintro ⟨n, _, ⟨hn, rfl⟩, rfl, rfl⟩
    rw [DescriptorExchange.word32, UInt32.toNat_ofNat_of_lt' hn]
  · rintro rfl
    exact ⟨w.toNat, rest, ⟨w.toNat_lt, rfl⟩, by simp, rfl⟩

/-- Items are read just if they stand one after the other at the front of the input, when a single
one is read just if it stands there in some shape. -/
theorem items_eq_ok_of_shapes {item : Reader α} {bytes : β → Bytes} {value : β → α}
    (hitem : ∀ {input rest a}, item input = .ok (a, rest) ↔
      ∃ b, input = bytes b ++ rest ∧ value b = a) {count : Nat} {xs : List α} :
    items item count input = .ok (xs, rest) ↔
      ∃ bs : List β, bs.length = count ∧ input = bs.flatMap bytes ++ rest ∧ bs.map value = xs := by
  induction count generalizing input rest xs with
  | zero =>
    simp only [items, pure_eq_ok, List.length_eq_zero_iff]
    constructor
    · rintro ⟨rfl, rfl⟩
      exact ⟨[], rfl, by simp⟩
    · rintro ⟨_, rfl, rfl, rfl⟩
      simp
  | succ count ih =>
    simp only [items, bind_eq_ok, hitem, ih, pure_eq_ok]
    constructor
    · rintro ⟨_, _, ⟨b, rfl, rfl⟩, _, _, ⟨bs, rfl, rfl, rfl⟩, rfl, rfl⟩
      exact ⟨b :: bs, by simp⟩
    · rintro ⟨bs, hlen, rfl, rfl⟩
      obtain _ | ⟨b, bs⟩ := bs
      · simp at hlen
      · exact ⟨_, _, ⟨b, by simp, rfl⟩, _, rest, ⟨bs, by simpa using hlen, rfl, rfl⟩, rfl, rfl⟩

theorem items_eq_ok {item : Reader α} {encode : α → Bytes}
    (hitem : ∀ {input rest a}, item input = .ok (a, rest) ↔ input = encode a ++ rest)
    {count : Nat} {xs : List α} :
    items item count input = .ok (xs, rest) ↔ xs.length = count ∧
      input = xs.flatMap encode ++ rest := by
  have hshape {input rest : Bytes} {a : α} : item input = .ok (a, rest) ↔
      ∃ b, input = encode b ++ rest ∧ id b = a := by simp [hitem]
  simp [items_eq_ok_of_shapes hshape]

/-- Items one after the other are read back if each of them is, whatever follows it. -/
theorem items_append {item : Reader α} {encode : α → Bytes} {xs : List α}
    (hitem : ∀ a ∈ xs, ∀ rest, item (encode a ++ rest) = .ok (a, rest)) (rest : Bytes) :
    items item xs.length (xs.flatMap encode ++ rest) = .ok (xs, rest) := by
  induction xs with
  | nil => rfl
  | cons a more ih =>
    have hmore := ih fun b hb => hitem b (List.mem_cons_of_mem a hb)
    rw [List.flatMap_cons, List.append_assoc]
    refine bind_eq_ok.mpr ⟨a, _, hitem a List.mem_cons_self _, ?_⟩
    exact bind_eq_ok.mpr ⟨more, rest, hmore, rfl⟩

theorem of_items_eq_ok {item : Reader α} {count : Nat} {xs : List α}
    (h : items item count input = .ok (xs, rest)) :
    xs.length = count ∧ ∀ a ∈ xs, ∃ input rest, item input = .ok (a, rest) := by
  induction count generalizing input rest xs with
  | zero =>
    obtain ⟨rfl, -⟩ := pure_eq_ok.mp h
    simp
  | succ count ih =>
    obtain ⟨a, _, ha, h⟩ := bind_eq_ok.mp h
    obtain ⟨more, _, hmore, h⟩ := bind_eq_ok.mp h
    obtain ⟨rfl, -⟩ := pure_eq_ok.mp h
    obtain ⟨hlength, hread⟩ := ih hmore
    exact ⟨by simp [hlength], List.forall_mem_cons.mpr ⟨⟨_, _, ha⟩, hread⟩⟩

theorem parse_eq_ok {reader : Reader α} {a : α} :
    reader.parse input = .ok a ↔ ∃ rest, reader input = .ok (a, rest) := by
  simp only [parse, StateT.run]
  cases reader input with
  | error e => simp [Except.map]
  | ok x => simp [Except.map, Prod.ext_iff]

end Reader
end DescriptorExchange
