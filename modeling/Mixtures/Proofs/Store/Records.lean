import Mathlib.Tactic.Ring
import Mixtures.Store.Codec

/-!
# Records of a model file

After the header a model file consists of records without separators: words, components,
mixtures. What makes them readable is that all records of one kind have one width. `Reads` says
so about a decoder: fewer bytes than the width are an early end, whatever they are; and the
decoder takes exactly the bytes that hold a record, whatever follows them. Such decoders compose
(`Reads.bind`, `Reads.times`), so that the records of a whole collection are one step from those
of its components.
-/

namespace Mixtures.Store

/-! ## Whole numbers as bytes -/

@[simp] theorem length_littleEndian (width n : Nat) : (littleEndian width n).length = width := by
  induction width generalizing n with
  | zero => rfl
  | succ width ih => simp [littleEndian, ih]

/-- The bytes of a number give it back up to what does not fit. -/
theorem ofLittleEndian_littleEndian (width n : Nat) :
    ofLittleEndian (littleEndian width n) = n % 256 ^ width := by
  induction width generalizing n with
  | zero => simp [littleEndian, ofLittleEndian, Nat.mod_one]
  | succ width ih =>
    have hlow : (UInt8.ofNat n).toNat = n % 256 := by simp
    rw [littleEndian, ofLittleEndian, ih, hlow, Nat.pow_succ', Nat.mod_mul]

/-- Every list of bytes is the bytes of the number it stands for. -/
theorem littleEndian_ofLittleEndian (bs : Bytes) :
    littleEndian bs.length (ofLittleEndian bs) = bs := by
  induction bs with
  | nil => rfl
  | cons b bs ih =>
    have hb := b.toNat_lt
    have hlow : UInt8.ofNat (b.toNat + 256 * ofLittleEndian bs) = b := by
      apply UInt8.toNat_inj.mp
      rw [UInt8.toNat_ofNat']
      omega
    have hhigh : (b.toNat + 256 * ofLittleEndian bs) / 256 = ofLittleEndian bs := by omega
    rw [List.length_cons, ofLittleEndian, littleEndian, hlow, hhigh, ih]

theorem ofLittleEndian_lt (bs : Bytes) : ofLittleEndian bs < 256 ^ bs.length := by
  rw [← littleEndian_ofLittleEndian bs, ofLittleEndian_littleEndian, length_littleEndian]
  exact Nat.mod_lt _ (Nat.pow_pos (by decide))

@[simp] theorem length_wordBytes (w : UInt64) : (wordBytes w).length = 8 :=
  length_littleEndian 8 _

theorem ofLittleEndian_wordBytes (w : UInt64) :
    UInt64.ofNat (ofLittleEndian (wordBytes w)) = w := by
  have hlt : w.toNat < 256 ^ 8 := w.toNat_lt
  rw [wordBytes, ofLittleEndian_littleEndian, Nat.mod_eq_of_lt hlt, UInt64.ofNat_toNat]

theorem exists_wordBytes_eq {bs : Bytes} (h : bs.length = 8) : ∃ w, bs = wordBytes w := by
  have hlt : ofLittleEndian bs < 2 ^ 64 := by simpa [h] using ofLittleEndian_lt bs
  refine ⟨UInt64.ofNat (ofLittleEndian bs), ?_⟩
  rw [wordBytes, UInt64.toNat_ofNat_of_lt' hlt, ← h, littleEndian_ofLittleEndian]

/-! ## One step of a decoder -/

theorem splitBytes_eq (n : Nat) (input : Bytes) :
    splitBytes n input =
      if input.length < n then none else some (input.take n, input.drop n) := by
  induction n generalizing input with
  | zero => simp [splitBytes]
  | succ n ih =>
    cases input with
    | nil => simp [splitBytes]
    | cons b bs =>
      rw [splitBytes, ih]
      by_cases h : bs.length < n <;> simp [h]

namespace Decoder

variable {β γ : Type}

theorem bind_of_ok {d : Decoder β} {next : β → Decoder γ} {input rest : Bytes} {x : β}
    (h : d input = .ok (x, rest)) : (d >>= next) input = next x rest := by
  show (d input >>= fun p => next p.1 p.2) = _
  rw [h]
  rfl

theorem bind_of_error {d : Decoder β} {next : β → Decoder γ} {input : Bytes} {e : Error}
    (h : d input = .error e) : (d >>= next) input = .error e := by
  show (d input >>= fun p => next p.1 p.2) = _
  rw [h]
  rfl

theorem bytes_of_lt {n : Nat} {input : Bytes} (h : input.length < n) :
    bytes n input = .error (.file .unexpectedEnd) := by
  rw [bytes, splitBytes_eq, if_pos h]

theorem bytes_of_le {n : Nat} {input : Bytes} (h : n ≤ input.length) :
    bytes n input = .ok (input.take n, input.drop n) := by
  rw [bytes, splitBytes_eq, if_neg (by omega)]

theorem number_of_lt {n : Nat} {input : Bytes} (h : input.length < n) :
    number n input = .error (.file .unexpectedEnd) :=
  bind_of_error (bytes_of_lt h)

theorem number_of_le {n : Nat} {input : Bytes} (h : n ≤ input.length) :
    number n input = .ok (ofLittleEndian (input.take n), input.drop n) :=
  bind_of_ok (bytes_of_le h)

/-! ## Decoders of records -/

/-- The decoder takes records of one width; `Form x taken` says that the bytes `taken` hold the
record `x`. -/
structure Reads (d : Decoder β) (width : Nat) (Form : β → Bytes → Prop) : Prop where
  /-- Fewer bytes than a record has are an early end. -/
  short : ∀ input, input.length < width → d input = .error (.file .unexpectedEnd)
  /-- A record has the width. -/
  length_eq : ∀ x taken, Form x taken → taken.length = width
  /-- A record is taken off any bytes that it is followed by. -/
  exact : ∀ x taken rest, Form x taken → d (taken ++ rest) = .ok (x, rest)
  /-- There are no other bytes of this width than those of records. -/
  total : ∀ taken, taken.length = width → ∃ x, Form x taken

/-- The bytes of a record are a function of it. -/
abbrev Written (Valid : β → Prop) (bytesOf : β → Bytes) : β → Bytes → Prop :=
  fun x taken => Valid x ∧ taken = bytesOf x

namespace Reads

variable {d : Decoder β} {next : β → Decoder γ} {width more : Nat}
  {Form : β → Bytes → Prop} {Later : β → γ → Bytes → Prop}

/-- Enough bytes give a record and leave what is beyond its width. -/
theorem ok_of_le (h : Reads d width Form) {input : Bytes} (hlen : width ≤ input.length) :
    ∃ x, Form x (input.take width) ∧ d input = .ok (x, input.drop width) := by
  obtain ⟨x, hx⟩ := h.total (input.take width) (List.length_take_of_le hlen)
  have hread := h.exact x _ (input.drop width) hx
  rw [List.take_append_drop] at hread
  exact ⟨x, hx, hread⟩

theorem of_form_iff {Form' : β → Bytes → Prop} (h : Reads d width Form)
    (hiff : ∀ x taken, Form x taken ↔ Form' x taken) : Reads d width Form' := by
  have heq : Form = Form' := by
    funext x taken
    exact propext (hiff x taken)
  exact heq ▸ h

theorem pure (x : β) : Reads (pure x : Decoder β) 0 fun y taken => y = x ∧ taken = [] where
  short _ hlen := absurd hlen (Nat.not_lt_zero _)
  length_eq := by rintro y taken ⟨-, rfl⟩; rfl
  exact := by rintro y taken rest ⟨rfl, rfl⟩; rfl
  total taken hlen := ⟨x, rfl, List.length_eq_zero_iff.mp hlen⟩

/-- One record after another. What the second one is may depend on the first, its width may
not. -/
theorem bind (h : Reads d width Form)
    (hnext : ∀ x taken, Form x taken → Reads (next x) more (Later x)) :
    Reads (d >>= next) (width + more) fun y taken =>
      ∃ x first second, taken = first ++ second ∧ Form x first ∧ Later x y second where
  short input hlen := by
    by_cases hfirst : input.length < width
    · exact bind_of_error (h.short input hfirst)
    · obtain ⟨x, hx, hread⟩ := h.ok_of_le (Nat.le_of_not_lt hfirst)
      rw [bind_of_ok hread]
      exact (hnext x _ hx).short _ (by rw [List.length_drop]; omega)
  length_eq := by
    rintro y taken ⟨x, first, second, rfl, hx, hy⟩
    rw [List.length_append, h.length_eq x first hx, (hnext x first hx).length_eq y second hy]
  exact := by
    rintro y taken rest ⟨x, first, second, rfl, hx, hy⟩
    rw [List.append_assoc, bind_of_ok (h.exact x first _ hx)]
    exact (hnext x first hx).exact y second rest hy
  total taken hlen := by
    obtain ⟨x, hx⟩ := h.total (taken.take width) (List.length_take_of_le (by omega))
    obtain ⟨y, hy⟩ := (hnext x _ hx).total (taken.drop width) (by rw [List.length_drop]; omega)
    exact ⟨y, x, _, _, (List.take_append_drop width taken).symm, hx, hy⟩

variable {Valid : β → Prop} {bytesOf : β → Bytes}

/-- A number of records of one kind. -/
theorem times (h : Reads d width (Written Valid bytesOf)) (n : Nat) :
    Reads (Decoder.times d n) (n * width)
      (Written (fun xs => xs.length = n ∧ ∀ x ∈ xs, Valid x) (List.flatMap bytesOf)) := by
  induction n with
  | zero =>
    rw [Nat.zero_mul]
    refine (pure []).of_form_iff fun xs taken => ⟨?_, ?_⟩
    · rintro ⟨rfl, rfl⟩
      simp [Written]
    · rintro ⟨⟨hlen, -⟩, rfl⟩
      simp [List.length_eq_zero_iff.mp hlen]
  | succ n ih =>
    have hread := h.bind fun x _ _ => ih.bind fun xs _ _ => pure (x :: xs)
    rw [Nat.succ_mul, Nat.add_comm (n * width)]
    refine hread.of_form_iff fun xs taken => ⟨?_, ?_⟩
    · rintro ⟨x, _, _, rfl, ⟨hx, rfl⟩, xs, _, _, rfl, ⟨⟨hlen, hxs⟩, rfl⟩, rfl, rfl⟩
      refine ⟨⟨by simp [hlen], ?_⟩, by simp⟩
      simpa using ⟨hx, hxs⟩
    · rintro ⟨⟨hlen, hall⟩, rfl⟩
      obtain ⟨x, xs, rfl⟩ := List.exists_cons_of_length_eq_add_one hlen
      refine ⟨x, _, _, List.flatMap_cons, ⟨hall x (by simp), rfl⟩, xs, _, [],
        (List.append_nil _).symm, ⟨⟨by simpa using hlen, ?_⟩, rfl⟩, rfl, rfl⟩
      exact fun y hy => hall y (List.mem_cons_of_mem x hy)

/-- A check that passes takes nothing. -/
theorem lift {r : Except Error γ} {y : γ} (h : r = .ok y) :
    Reads (liftM r : Decoder γ) 0 fun z taken => z = y ∧ taken = [] := by
  subst h
  exact pure y

end Reads

end Decoder

/-! ## Words, components and mixtures -/

/-- The bytes of a component. -/
def componentBytes (c : Component UInt64) : Bytes := (componentWords c).flatMap wordBytes

/-- The bytes of a mixture. -/
def mixtureBytes (m : Mixture UInt64) : Bytes := m.components.flatMap componentBytes

/-- The number of bytes of a component: a word for its weight and one for each entry of its mean
and covariance. -/
def componentWidth (dim : Nat) : Nat := 8 * (1 + dim + dim * dim)

namespace Decoder

/-- Any eight bytes hold a word. -/
theorem reads_word : Reads word 8 (Written (fun _ => True) wordBytes) where
  short _ hlen := bind_of_error (number_of_lt hlen)
  length_eq := by rintro w _ ⟨-, rfl⟩; exact length_wordBytes w
  exact := by
    rintro w _ rest ⟨-, rfl⟩
    have hw := length_wordBytes w
    have hle : 8 ≤ (wordBytes w ++ rest).length := by rw [List.length_append]; omega
    rw [word, bind_of_ok (number_of_le hle), List.take_left' hw, List.drop_left' hw,
      ofLittleEndian_wordBytes]
    rfl
  total _ hlen := (exists_wordBytes_eq hlen).imp fun _ hw => ⟨trivial, hw⟩

/-- A component is a word, `dim` words and `dim * dim` words. -/
theorem reads_component (dim : Nat) :
    Reads (component dim) (componentWidth dim)
      (Written (Component.HasShape dim) componentBytes) := by
  have hread := reads_word.bind fun weight _ _ => (reads_word.times dim).bind fun mean _ _ =>
    (reads_word.times (dim * dim)).bind fun covariance _ _ =>
      Reads.pure (⟨weight, mean, covariance⟩ : Component UInt64)
  have hwidth : 8 + (dim * 8 + (dim * dim * 8 + 0)) = componentWidth dim := by
    unfold componentWidth
    ring
  rw [hwidth] at hread
  refine hread.of_form_iff fun c taken => ⟨?_, ?_⟩
  · rintro ⟨weight, _, _, rfl, ⟨-, rfl⟩, mean, _, _, rfl, ⟨⟨hmean, -⟩, rfl⟩, covariance, _, _, rfl,
      ⟨⟨hcovariance, -⟩, rfl⟩, rfl, rfl⟩
    exact ⟨⟨hmean, hcovariance⟩, by simp [componentBytes, componentWords]⟩
  · rintro ⟨⟨hmean, hcovariance⟩, rfl⟩
    refine ⟨c.weight, _, _, ?_, ⟨trivial, rfl⟩, c.mean, _, _, rfl, ⟨⟨hmean, by simp⟩, rfl⟩,
      c.covariance, _, [], (List.append_nil _).symm, ⟨⟨hcovariance, by simp⟩, rfl⟩, rfl, rfl⟩
    simp [componentBytes, componentWords]

/-- A mixture is its components. -/
theorem reads_mixture (size dim : Nat) :
    Reads (mixture size dim) (size * componentWidth dim)
      (Written (Mixture.HasShape size dim) mixtureBytes) := by
  have hread := ((reads_component dim).times size).bind fun components _ hform =>
    Reads.lift (Mixture.ofComponents_of_hasShape hform.1.2)
  rw [Nat.add_zero] at hread
  refine hread.of_form_iff fun m taken => ⟨?_, ?_⟩
  · rintro ⟨components, _, _, rfl, ⟨⟨hsize, hshape⟩, rfl⟩, rfl, rfl⟩
    exact ⟨⟨hsize, hshape⟩, by simp [mixtureBytes]⟩
  · rintro ⟨⟨hsize, hshape⟩, rfl⟩
    exact ⟨m.components, _, [], (List.append_nil _).symm, ⟨⟨hsize, hshape⟩, rfl⟩, rfl, rfl⟩

/-- What follows the header: as many mixtures as it says. -/
theorem reads_mixtures (groups size dim : Nat) :
    Reads (times (mixture size dim) groups >>= fun mixtures =>
        (liftM (Collection.ofMixtures size dim mixtures) : Decoder (Collection UInt64)))
      (groups * (size * componentWidth dim))
      (Written (fun models => models.groupCount = groups ∧ models.size = size ∧ models.dim = dim)
        fun models => models.mixtures.flatMap mixtureBytes) := by
  have hcheck : ∀ mixtures : List (Mixture UInt64),
      (∀ m ∈ mixtures, m.HasShape size dim) →
      Reads (liftM (Collection.ofMixtures size dim mixtures) : Decoder (Collection UInt64)) 0
        fun models taken =>
          Collection.ofMixtures size dim mixtures = .ok models ∧ taken = [] := by
    intro mixtures hshape
    have hmade : Collection.ofMixtures size dim mixtures = .ok ⟨size, dim, mixtures, hshape⟩ :=
      Collection.ofMixtures_eq_ok_iff.mpr ⟨rfl, rfl, rfl⟩
    refine (Reads.lift hmade).of_form_iff fun models taken => and_congr_left' ?_
    rw [hmade, Except.ok.injEq, eq_comm]
  have hread := ((reads_mixture size dim).times groups).bind fun mixtures _ hform =>
    hcheck mixtures hform.1.2
  rw [Nat.add_zero] at hread
  refine hread.of_form_iff fun models taken => ⟨?_, ?_⟩
  · rintro ⟨mixtures, _, _, rfl, ⟨⟨hgroups, -⟩, rfl⟩, hmade, rfl⟩
    obtain ⟨hsize, hdim, rfl⟩ := Collection.ofMixtures_eq_ok_iff.mp hmade
    exact ⟨⟨hgroups, hsize, hdim⟩, List.append_nil _⟩
  · rintro ⟨⟨hgroups, rfl, rfl⟩, rfl⟩
    exact ⟨models.mixtures, _, [], (List.append_nil _).symm, ⟨⟨hgroups, models.hasShape⟩, rfl⟩,
      Collection.ofMixtures_eq_ok_iff.mpr ⟨rfl, rfl, rfl⟩, rfl⟩

end Decoder

end Mixtures.Store
