import Mixtures.Proofs.Store.Records
import Mixtures.Store.Save

/-!
# Reading model files

What reading a model file gives, for every content and every expected shape. `judge` lists the
tests in the order in which they decide: it looks at the length of the content, at its first four
bytes and at the four whole numbers of the header, and at nothing else.

* `load_outcome`: loading a file ends as judged, and what is loaded from a file is written as
  that file.
* `decode_encode_append`: what was written is read back, and the bytes after it are left.
-/

namespace Mixtures.Store

/-! ## The tests of a file -/

/-- The whole number in the bytes of a file that begin at a position. -/
def field (start width : Nat) (content : Bytes) : Nat :=
  ofLittleEndian ((content.drop start).take width)

/-- How the content of a file is judged. -/
inductive Verdict where
  /-- It ends before the records that its header announces. -/
  | truncated
  /-- It is no file of the expected kind. -/
  | foreign (fault : FormatFault)
  /-- Nothing is wrong with it. -/
  | whole
deriving DecidableEq

/-- The error with which reading ends, if it does. -/
def Verdict.error? : Verdict → Option Error
  | truncated => some (.file .unexpectedEnd)
  | foreign fault => some (.format fault)
  | whole => none

/-- The tests of a header, in the order in which they decide. -/
def judgeHeader (size dim : Nat) (content : Bytes) : Verdict :=
  if content.length < 4 then .truncated
  else if content.take 4 ≠ magic then .foreign (.magic (content.take 4))
  else if content.length < 8 then .truncated
  else if field 4 4 content ≠ formatVersion then
    .foreign (.version (field 4 4 content) formatVersion)
  else if content.length < 32 then .truncated
  else if ¬(field 16 8 content = size ∧ field 24 8 content = dim) then
    .foreign (.shape (field 16 8 content) (field 24 8 content) size dim)
  else .whole

/-- The number of bytes of a file with the given numbers of groups and components and the given
dimension. -/
def fileLength (groups size dim : Nat) : Nat := 32 + 8 * groups * size * (1 + dim + dim * dim)

/-- The tests of a file: those of its header, and then its length against the one that the header
announces. -/
def judge (size dim : Nat) (content : Bytes) : Verdict :=
  match judgeHeader size dim content with
  | .whole =>
    if content.length < fileLength (field 8 8 content) size dim then .truncated
    else if fileLength (field 8 8 content) size dim < content.length then .foreign .trailing
    else .whole
  | verdict => verdict

theorem judgeHeader_eq_whole_iff {size dim : Nat} {content : Bytes} :
    judgeHeader size dim content = .whole ↔
      32 ≤ content.length ∧ content.take 4 = magic ∧ field 4 4 content = formatVersion ∧
        field 16 8 content = size ∧ field 24 8 content = dim := by
  unfold judgeHeader
  constructor
  · intro h
    split_ifs at h with h4 hmagic h8 hversion h32 hshape
    exact ⟨by omega, not_not.mp hmagic, not_not.mp hversion, hshape⟩
  · rintro ⟨hlen, hmagic, hversion, hshape⟩
    rw [if_neg (by omega), if_neg (not_not_intro hmagic), if_neg (by omega),
      if_neg (not_not_intro hversion), if_neg (by omega), if_neg (not_not_intro hshape)]

namespace Decoder

variable {β : Type}

theorem bind_expect (condition : Bool) (fault : FormatFault) (next : Decoder β) (input : Bytes) :
    (expect condition fault >>= fun _ => next) input =
      if condition then next input else .error (.format fault) := by
  cases condition <;> rfl

theorem number_drop_of_lt {start width : Nat} {input : Bytes} (hwidth : 0 < width)
    (h : input.length < start + width) :
    number width (input.drop start) = .error (.file .unexpectedEnd) :=
  number_of_lt (by rw [List.length_drop]; omega)

theorem number_drop_of_le {start width : Nat} {input : Bytes} (h : start + width ≤ input.length) :
    number width (input.drop start) =
      .ok (field start width input, input.drop (start + width)) := by
  rw [number_of_le (by rw [List.length_drop]; omega), List.drop_drop, field]

/-- A header is read as it is judged. -/
theorem header_eq (size dim : Nat) (input : Bytes) :
    header size dim input =
      match (judgeHeader size dim input).error? with
      | some e => .error e
      | none => .ok (field 8 8 input, input.drop 32) := by
  rw [header, judgeHeader]
  by_cases h4 : input.length < 4
  · rw [if_pos h4, bind_of_error (bytes_of_lt h4)]
    rfl
  rw [if_neg h4, bind_of_ok (bytes_of_le (Nat.le_of_not_lt h4)), bind_expect]
  by_cases hmagic : input.take 4 = magic
  swap
  · rw [if_pos hmagic, if_neg (by simpa using hmagic)]
    rfl
  rw [if_neg (not_not_intro hmagic), if_pos (by simpa using hmagic)]
  by_cases h8 : input.length < 8
  · rw [if_pos h8, bind_of_error (number_drop_of_lt (by decide) h8)]
    rfl
  rw [if_neg h8, bind_of_ok (number_drop_of_le (Nat.le_of_not_lt h8)), bind_expect]
  by_cases hversion : field 4 4 input = formatVersion
  swap
  · rw [if_pos hversion, if_neg (by simpa using hversion)]
    rfl
  rw [if_neg (not_not_intro hversion), if_pos (by simpa using hversion)]
  -- the three numbers are read one by one, but a cut between them is one verdict
  by_cases h16 : input.length < 16
  · rw [if_pos (by omega), bind_of_error (number_drop_of_lt (by decide) h16)]
    rfl
  rw [bind_of_ok (number_drop_of_le (Nat.le_of_not_lt h16))]
  by_cases h24 : input.length < 24
  · rw [if_pos (by omega), bind_of_error (number_drop_of_lt (by decide) h24)]
    rfl
  rw [bind_of_ok (number_drop_of_le (Nat.le_of_not_lt h24))]
  by_cases h32 : input.length < 32
  · rw [if_pos h32, bind_of_error (number_drop_of_lt (by decide) h32)]
    rfl
  rw [if_neg h32, bind_of_ok (number_drop_of_le (Nat.le_of_not_lt h32)), bind_expect]
  by_cases hshape : field 16 8 input = size ∧ field 24 8 input = dim
  swap
  · rw [if_pos hshape, if_neg (by simpa using hshape)]
    rfl
  rw [if_neg (not_not_intro hshape), if_pos (by simpa using hshape)]
  rfl

theorem header_of_whole {size dim : Nat} {input : Bytes}
    (h : judgeHeader size dim input = .whole) :
    header size dim input = .ok (field 8 8 input, input.drop 32) := by
  rw [header_eq, h]
  rfl

end Decoder

/-! ## The encoding by its parts -/

/-- The header of a collection. -/
def headerBytes (models : Collection UInt64) : Bytes := (headerParts models).flatten

@[simp] theorem length_headerBytes (models : Collection UInt64) :
    (headerBytes models).length = 32 := by
  simp [headerBytes, headerParts, magic]

/-- An encoding is the header and the records of the mixtures. -/
theorem encode_eq (models : Collection UInt64) :
    encode models = headerBytes models ++ models.mixtures.flatMap mixtureBytes := by
  rw [encode, parts, List.flatten_append, headerBytes, List.append_cancel_left_eq]
  simp only [List.flatMap_def, List.flatten_flatten, List.map_map, Function.comp_def]
  rfl

theorem fileLength_eq (groups size dim : Nat) :
    fileLength groups size dim = 32 + groups * (size * componentWidth dim) := by
  unfold fileLength componentWidth
  ring

theorem length_encode (models : Collection UInt64) :
    (encode models).length = fileLength models.groupCount models.size models.dim := by
  have hread := Decoder.reads_mixtures models.groupCount models.size models.dim
  rw [encode_eq, List.length_append, length_headerBytes, fileLength_eq,
    hread.length_eq models _ ⟨⟨rfl, rfl, rfl⟩, rfl⟩]

/-- The numbers of groups and components and the dimension fit into the words of a header. -/
structure HasWordCounts (models : Collection UInt64) : Prop where
  groupCount_lt : models.groupCount < UInt64.size
  size_lt : models.size < UInt64.size
  dim_lt : models.dim < UInt64.size

theorem field_append {start width : Nat} {front middle : Bytes} (back : Bytes)
    (hfront : front.length = start) (hmiddle : middle.length = width) :
    field start width (front ++ (middle ++ back)) = ofLittleEndian middle := by
  rw [field, List.drop_left' hfront, List.take_left' hmiddle]

theorem ofLittleEndian_littleEndian_of_lt {n : Nat} (h : n < UInt64.size) :
    ofLittleEndian (littleEndian 8 n) = n :=
  (ofLittleEndian_littleEndian 8 n).trans (Nat.mod_eq_of_lt h)

/-- The header of a collection passes its tests, whatever comes after it. -/
theorem header_headerBytes_append {models : Collection UInt64} (h : HasWordCounts models)
    (rest : Bytes) :
    Decoder.header models.size models.dim (headerBytes models ++ rest) =
      .ok (models.groupCount, rest) := by
  have hsplit : headerBytes models ++ rest = magic ++ (littleEndian 4 formatVersion ++
      (littleEndian 8 models.groupCount ++ (littleEndian 8 models.size ++
        (littleEndian 8 models.dim ++ rest)))) := by
    simp [headerBytes, headerParts]
  have hmagic : (headerBytes models ++ rest).take 4 = magic := by
    rw [hsplit]
    exact List.take_left' rfl
  have hversion : field 4 4 (headerBytes models ++ rest) = formatVersion := by
    rw [hsplit]
    exact Eq.trans (field_append _ rfl rfl) (ofLittleEndian_littleEndian 4 formatVersion)
  -- the remaining numbers are words, with all parts before them as the front
  have hgroups : field 8 8 (headerBytes models ++ rest) = models.groupCount := by
    rw [hsplit, ← List.append_assoc]
    exact Eq.trans (field_append _ rfl rfl) (ofLittleEndian_littleEndian_of_lt h.groupCount_lt)
  have hsize : field 16 8 (headerBytes models ++ rest) = models.size := by
    rw [hsplit, ← List.append_assoc, ← List.append_assoc]
    exact Eq.trans (field_append _ rfl rfl) (ofLittleEndian_littleEndian_of_lt h.size_lt)
  have hdim : field 24 8 (headerBytes models ++ rest) = models.dim := by
    rw [hsplit, ← List.append_assoc, ← List.append_assoc, ← List.append_assoc]
    exact Eq.trans (field_append _ rfl rfl) (ofLittleEndian_littleEndian_of_lt h.dim_lt)
  have hlen : 32 ≤ (headerBytes models ++ rest).length := by simp
  rw [Decoder.header_of_whole
      (judgeHeader_eq_whole_iff.mpr ⟨hlen, hmagic, hversion, hsize, hdim⟩),
    hgroups, List.drop_left' (length_headerBytes models)]

/-! ## What was written is read back -/

theorem decode_encode (models : Collection UInt64) (h : HasWordCounts models) (rest : Bytes) :
    decode models.size models.dim (encode models ++ rest) = .ok (models, rest) := by
  have hread := Decoder.reads_mixtures models.groupCount models.size models.dim
  rw [encode_eq, List.append_assoc]
  show Decoder.collection models.size models.dim _ = _
  rw [Decoder.collection, Decoder.bind_of_ok (header_headerBytes_append h _)]
  exact hread.exact models _ rest ⟨⟨rfl, rfl, rfl⟩, rfl⟩

/-- Reads collections of the given shapes one after the other. -/
def decodeAll : List (Nat × Nat) → Decoder (List (Collection UInt64))
  | [] => pure []
  | shape :: shapes => do
    let models ← Decoder.collection shape.1 shape.2
    let more ← decodeAll shapes
    return models :: more

theorem decodeAll_encode (sequence : List (Collection UInt64))
    (h : ∀ models ∈ sequence, HasWordCounts models) (rest : Bytes) :
    decodeAll (sequence.map fun models => (models.size, models.dim))
      (sequence.flatMap encode ++ rest) = .ok (sequence, rest) := by
  induction sequence with
  | nil => rfl
  | cons models sequence ih =>
    have hfirst : Decoder.collection models.size models.dim _ = _ :=
      decode_encode models (h models List.mem_cons_self) (sequence.flatMap encode ++ rest)
    have hmore := ih fun other hother => h other (List.mem_cons_of_mem models hother)
    rw [List.map_cons, decodeAll, List.flatMap_cons, List.append_assoc,
      Decoder.bind_of_ok hfirst, Decoder.bind_of_ok hmore]
    rfl

/-- **What was written is read back.** The length of an encoding is determined by the counts in
its header; reading takes exactly the encoding off any bytes that it is followed by; and
collections written one after the other are read in their order. -/
theorem decode_encode_append (models : Collection UInt64) (rest : Bytes)
    (h : HasWordCounts models) (sequence : List (Collection UInt64))
    (hsequence : ∀ other ∈ sequence, HasWordCounts other) :
    (encode models).length =
        32 + 8 * models.groupCount * models.size * (1 + models.dim + models.dim * models.dim) ∧
      decode models.size models.dim (encode models ++ rest) = .ok (models, rest) ∧
      decodeAll (sequence.map fun other => (other.size, other.dim))
        (sequence.flatMap encode ++ rest) = .ok (sequence, rest) :=
  ⟨length_encode models, decode_encode models h rest, decodeAll_encode sequence hsequence rest⟩

/-- One group with one component of dimension one. Its mean is a negative zero, and its covariance
is not a number. -/
def oddCollection : Collection UInt64 where
  size := 1
  dim := 1
  mixtures := [⟨[⟨0x3FF0000000000000, [0x8000000000000000], [0x7FF8000000000001]⟩]⟩]
  hasShape := by decide

theorem decode_encode_append_oddCollection :
    HasWordCounts oddCollection ∧ (encode oddCollection).length = 56 ∧
      decode 1 1 (encode oddCollection ++ [7]) = .ok (oddCollection, [7]) ∧
      decodeAll [(1, 1), (1, 1)] (encode oddCollection ++ (encode oddCollection ++ [7])) =
        .ok ([oddCollection, oddCollection], [7]) := by
  have h : HasWordCounts oddCollection := ⟨by decide, by decide, by decide⟩
  exact ⟨h,
    decode_encode_append oddCollection [7] h [oddCollection, oddCollection] (by simpa using h)⟩

/-! ## What is read from any bytes -/

/-- The bytes of a field are those of its number. -/
theorem littleEndian_field {start width : Nat} {content : Bytes}
    (h : start + width ≤ content.length) :
    littleEndian width (field start width content) = (content.drop start).take width := by
  have hlen : ((content.drop start).take width).length = width := by
    rw [List.length_take, List.length_drop]
    omega
  have hbytes := littleEndian_ofLittleEndian ((content.drop start).take width)
  rwa [hlen] at hbytes

/-- A header that passes its tests is the header of every collection with its counts. -/
theorem headerBytes_eq_take {models : Collection UInt64} {content : Bytes}
    (hlen : 32 ≤ content.length) (hmagic : content.take 4 = magic)
    (hversion : field 4 4 content = formatVersion) (hgroups : field 8 8 content = models.groupCount)
    (hsize : field 16 8 content = models.size) (hdim : field 24 8 content = models.dim) :
    headerBytes models = content.take 32 := by
  have hsplit : content.take 32 = content.take 4 ++ ((content.drop 4).take 4 ++
      ((content.drop 8).take 8 ++ ((content.drop 16).take 8 ++ (content.drop 24).take 8))) := by
    rw [show 32 = 4 + (4 + (8 + (8 + 8))) from rfl]
    simp only [List.take_add, List.drop_drop]
  rw [hsplit, hmagic, ← littleEndian_field (by omega : 4 + 4 ≤ content.length), hversion,
    ← littleEndian_field (by omega : 8 + 8 ≤ content.length), hgroups,
    ← littleEndian_field (by omega : 16 + 8 ≤ content.length), hsize,
    ← littleEndian_field (by omega : 24 + 8 ≤ content.length), hdim]
  simp [headerBytes, headerParts]

/-- After a header that passes its tests the records are read. -/
theorem decode_of_whole_header {size dim : Nat} {content : Bytes}
    (h : judgeHeader size dim content = .whole) :
    decode size dim content =
      (Decoder.times (Decoder.mixture size dim) (field 8 8 content) >>= fun mixtures =>
        (liftM (Collection.ofMixtures size dim mixtures) : Decoder (Collection UInt64)))
        (content.drop 32) :=
  Decoder.bind_of_ok (Decoder.header_of_whole h)

theorem decode_of_lt {size dim : Nat} {content : Bytes}
    (h : judgeHeader size dim content = .whole)
    (hshort : content.length < fileLength (field 8 8 content) size dim) :
    decode size dim content = .error (.file .unexpectedEnd) := by
  have h32 := (judgeHeader_eq_whole_iff.mp h).1
  rw [fileLength_eq] at hshort
  rw [decode_of_whole_header h]
  exact (Decoder.reads_mixtures _ size dim).short _ (by rw [List.length_drop]; omega)

/-- As many bytes as the header announces are the encoding of a collection. -/
theorem decode_of_le {size dim : Nat} {content : Bytes}
    (h : judgeHeader size dim content = .whole)
    (hlong : fileLength (field 8 8 content) size dim ≤ content.length) :
    ∃ models : Collection UInt64, models.groupCount = field 8 8 content ∧ models.size = size ∧
      models.dim = dim ∧ encode models = content.take (fileLength (field 8 8 content) size dim) ∧
      decode size dim content =
        .ok (models, content.drop (fileLength (field 8 8 content) size dim)) := by
  obtain ⟨h32, hmagic, hversion, hsize, hdim⟩ := judgeHeader_eq_whole_iff.mp h
  rw [fileLength_eq] at hlong ⊢
  have hrest : field 8 8 content * (size * componentWidth dim) ≤ (content.drop 32).length := by
    rw [List.length_drop]
    omega
  obtain ⟨models, ⟨⟨hgroups, rfl, rfl⟩, hbytes⟩, hread⟩ :=
    (Decoder.reads_mixtures (field 8 8 content) size dim).ok_of_le hrest
  refine ⟨models, hgroups, rfl, rfl, ?_, ?_⟩
  · rw [encode_eq, headerBytes_eq_take h32 hmagic hversion hgroups.symm hsize hdim, List.take_add]
    exact congrArg _ hbytes.symm
  · rw [decode_of_whole_header h, hread, List.drop_drop]

theorem decodeFile_of_decode_error {size dim : Nat} {content : Bytes} {e : Error}
    (h : decode size dim content = .error e) : decodeFile size dim content = .error e := by
  rw [decodeFile, h]
  rfl

theorem decodeFile_of_decode_ok {size dim : Nat} {content rest : Bytes}
    {models : Collection UInt64} (h : decode size dim content = .ok (models, rest)) :
    decodeFile size dim content =
      if 0 < rest.length then .error (.format .trailing) else .ok models := by
  rw [decodeFile, h]
  cases rest <;> rfl

/-- A file is read as it is judged. -/
theorem decodeFile_eq (size dim : Nat) (content : Bytes) :
    match (judge size dim content).error? with
    | some e => decodeFile size dim content = .error e
    | none => ∃ models : Collection UInt64, decodeFile size dim content = .ok models ∧
        models.groupCount = field 8 8 content ∧ models.size = size ∧ models.dim = dim ∧
        encode models = content := by
  rw [judge]
  cases hheader : judgeHeader size dim content with
  | truncated =>
    have hread := Decoder.header_eq size dim content
    rw [hheader] at hread
    exact decodeFile_of_decode_error (Decoder.bind_of_error hread)
  | foreign fault =>
    have hread := Decoder.header_eq size dim content
    rw [hheader] at hread
    exact decodeFile_of_decode_error (Decoder.bind_of_error hread)
  | whole =>
    dsimp only
    by_cases hshort : content.length < fileLength (field 8 8 content) size dim
    · rw [if_pos hshort]
      exact decodeFile_of_decode_error (decode_of_lt hheader hshort)
    rw [if_neg hshort]
    obtain ⟨models, hgroups, hsize, hdim, hbytes, hdecode⟩ :=
      decode_of_le hheader (Nat.le_of_not_lt hshort)
    have hfile := decodeFile_of_decode_ok hdecode
    rw [List.length_drop] at hfile
    by_cases hlong : fileLength (field 8 8 content) size dim < content.length
    · rw [if_pos hlong]
      rwa [if_pos (by omega)] at hfile
    · rw [if_neg hlong]
      rw [if_neg (by omega)] at hfile
      rw [List.take_of_length_le (by omega)] at hbytes
      exact ⟨models, hfile, hgroups, hsize, hdim, hbytes⟩

/-- **Loading a file ends as its content is judged.** A collection that is loaded has the counts of
the header and is written as the content of the file. The end of a file comes too early exactly if
it is judged so. -/
theorem load_outcome {fs : FileSystem} {path : Path} {content : Bytes}
    (h : fs.read path = .ok content) (size dim : Nat) :
    (match (judge size dim content).error? with
      | some e => load fs path size dim = .error e
      | none => ∃ models : Collection UInt64, load fs path size dim = .ok models ∧
          models.groupCount = field 8 8 content ∧ models.size = size ∧ models.dim = dim ∧
          encode models = content) ∧
      ((∃ e, load fs path size dim = .error e ∧ e.isTruncated = true) ↔
        judge size dim content = .truncated) := by
  have hload : load fs path size dim = decodeFile size dim content := by rw [load, h]
  have hfile := decodeFile_eq size dim content
  rw [hload]
  refine ⟨hfile, ?_⟩
  cases hjudge : judge size dim content with
  | truncated =>
    rw [hjudge] at hfile
    exact ⟨fun _ => rfl, fun _ => ⟨_, hfile, rfl⟩⟩
  | foreign fault =>
    rw [hjudge] at hfile
    refine ⟨?_, nofun⟩
    rintro ⟨e, he, htruncated⟩
    rw [he] at hfile
    cases hfile
    cases htruncated
  | whole =>
    rw [hjudge] at hfile
    obtain ⟨models, hok, -⟩ := hfile
    refine ⟨?_, nofun⟩
    rintro ⟨e, he, -⟩
    rw [hok] at he
    cases he

/-- Two files: a complete encoding, and one that ends within a word. -/
def shelf : FileSystem :=
  ⟨[(⟨0, ["whole"]⟩, .file (encode oddCollection)),
    (⟨0, ["cut"]⟩, .file ((encode oddCollection).take 51))]⟩

theorem load_outcome_shelf :
    shelf.read ⟨["whole"]⟩ = .ok (encode oddCollection) ∧
      (∃ models, load shelf ⟨["whole"]⟩ 1 1 = .ok models ∧ encode models = encode oddCollection) ∧
      shelf.read ⟨["cut"]⟩ = .ok ((encode oddCollection).take 51) ∧
      load shelf ⟨["cut"]⟩ 1 1 = .error (.file .unexpectedEnd) ∧
      load shelf ⟨["cut"]⟩ 2 1 = .error (.format (.shape 1 1 2 1)) := by
  have hwhole : shelf.read ⟨["whole"]⟩ = .ok (encode oddCollection) := by decide +kernel
  have hcut : shelf.read ⟨["cut"]⟩ = .ok ((encode oddCollection).take 51) := by decide +kernel
  have hjudge : (judge 1 1 (encode oddCollection)).error? = none := by decide +kernel
  have htruncated : (judge 1 1 ((encode oddCollection).take 51)).error? =
      some (.file .unexpectedEnd) := by decide +kernel
  have hshape : (judge 2 1 ((encode oddCollection).take 51)).error? =
      some (.format (.shape 1 1 2 1)) := by decide +kernel
  have hloaded := (load_outcome hwhole 1 1).1
  have hrefused := (load_outcome hcut 1 1).1
  have hforeign := (load_outcome hcut 2 1).1
  rw [hjudge] at hloaded
  rw [htruncated] at hrefused
  rw [hshape] at hforeign
  obtain ⟨models, hok, -, -, -, hbytes⟩ := hloaded
  exact ⟨hwhole, ⟨models, hok, hbytes⟩, hcut, hrefused, hforeign⟩

end Mixtures.Store
