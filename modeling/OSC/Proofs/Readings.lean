import OSC.Proofs.Placements

namespace OSC

variable {bytes : Bytes} {offset : Nat} {tag : Tag} {a : Argument}

/-- What arguments can be read as with a check of their types. -/
inductive Reader
  | int
  | long
  | float
  | double
  | bool
  | text
  | blob
  | handle
  | char
  | color
  | midi
  | timeTag

namespace Reader

abbrev Value : Reader → Type
  | int => Int32
  | long => Int64
  | float => Single
  | double => Double
  | bool => Bool
  | text => String
  | blob | handle => Bytes
  | char => Char
  | color => Color
  | midi => Midi
  | timeTag => TimeTag

def conversion : (r : Reader) → Conversion r.Value
  | int => .int
  | long => .long
  | float => .float
  | double => .double
  | bool => .bool
  | text => .text
  | blob => .blob
  | handle => .handle
  | char => .char
  | color => .color
  | midi => .midi
  | timeTag => .timeTag

/-- The name of the type in errors. -/
def expected : Reader → String
  | int => "i32"
  | long => "i64"
  | float => "f32"
  | double => "f64"
  | bool => "bool"
  | text => "string"
  | blob => "blob"
  | handle => "string handle"
  | char => "char"
  | color => "Color32"
  | midi => "MIDI"
  | timeTag => "timestamp"

/-- The tags under which the type can be read. -/
def column : Reader → List Tag
  | int => [.int32, .float32, .char, .bool true, .bool false]
  | long => [.int32, .int64, .float32, .float64, .char, .bool true, .bool false]
  | float => [.int32, .float32]
  | double => [.int32, .int64, .float32, .float64]
  | bool => [.bool true, .bool false, .int32]
  | text => Tag.all.filter fun tag => tag ≠ .blob ∧ tag ≠ .arrayOpen ∧ tag ≠ .arrayClose
  | blob => [.blob]
  | handle => [.string, .symbol, .blob]
  | char => [.char]
  | color => [.color]
  | midi => [.midi]
  | timeTag => [.timeTag]

theorem conversion_expected (r : Reader) : r.conversion.expected = r.expected := by cases r <;> rfl

theorem isSome_convert (r : Reader) (a : Argument) : (r.conversion.convert? a).isSome = decide (a.tag ∈ r.column) := by
  cases a with
  | bool value => cases value <;> cases r <;> rfl
  | _ => cases r <;> rfl

theorem convert_eq_none (r : Reader) : r.conversion.convert? a = none ↔ a.tag ∉ r.column := by
  rw [← Option.not_isSome_iff_eq_none, r.isSome_convert, decide_eq_true_eq]

theorem convert_eq_some (r : Reader) : (∃ v, r.conversion.convert? a = some v) ↔ a.tag ∈ r.column := by
  rw [← Option.isSome_iff_exists, r.isSome_convert, decide_eq_true_eq]

end Reader

namespace Tag

/-- The tag that is reported for what was decoded under this one. -/
def reported : Tag → Tag
  | symbol => string
  | other => other

/-- A symbol is read wherever a string is. -/
theorem reported_mem (tag : Tag) (r : Reader) : tag.reported ∈ r.column ↔ tag ∈ r.column := by
  cases tag with
  | symbol => cases r <;> decide
  | _ => exact Iff.rfl

/-- All the bytes that the tag calls for are there: those of a number, the zero that ends a text, or the size
of a blob and as many more. -/
def IsWhole (tag : Tag) (bytes : Bytes) (offset : Nat) : Prop :=
  match tag with
  | int32 | float32 | char | color | midi => offset + 4 ≤ bytes.length
  | int64 | float64 | timeTag => offset + 8 ≤ bytes.length
  | string | symbol => ∃ place, offset ≤ place ∧ bytes[place]? = some 0
  | blob => ∃ size, bytes.word? offset 4 = some size ∧ offset + 4 + size ≤ bytes.length
  | bool _ | nil | infinitum | arrayOpen | arrayClose => True

end Tag

theorem ok_map_iff {α β ε : Type} {x : Except ε α} {f : α → β} : (∃ b, x.map f = .ok b) ↔ ∃ a, x = .ok a := by
  constructor
  · rintro ⟨_, mapped⟩
    obtain ⟨a, found, _⟩ := ok_of_map mapped
    exact ⟨a, found⟩
  · rintro ⟨a, rfl⟩
    exact ⟨f a, rfl⟩

namespace Arguments

theorem word_ok_iff {width : Nat} : (∃ n, word bytes offset width = .ok n) ↔ offset + width ≤ bytes.length := by
  refine ⟨fun ⟨_, found⟩ => word_within found, fun inside => ?_⟩
  cases found : bytes.word? offset width with
  | none => exact absurd (Bytes.word_eq_none.mp found) (Nat.not_lt.mpr inside)
  | some n => exact ⟨n, word_eq_ok.mpr found⟩

theorem textAt_ok_iff :
    (∃ text, textAt bytes offset = .ok text) ↔ ∃ place, offset ≤ place ∧ bytes[place]? = some 0 := by
  constructor
  · rintro ⟨text, found⟩
    exact ⟨offset + text.length, Nat.le_add_right .., Bytes.zero_of_nulAt (nul_of_textAt found).1⟩
  · rintro ⟨place, behind, zero⟩
    have inside := (List.getElem?_eq_some_iff.mp zero).1
    obtain ⟨n, atNul⟩ := Bytes.nulAt_of_zero behind zero
    rw [textAt, if_neg (by omega), atNul]
    exact ⟨_, rfl⟩

theorem blobAt_ok_iff : (∃ content, blobAt bytes offset = .ok content) ↔
    ∃ size, bytes.word? offset 4 = some size ∧ offset + 4 + size ≤ bytes.length := by
  constructor
  · rintro ⟨content, found⟩
    exact ⟨content.length, size_of_blobAt found⟩
  · rintro ⟨size, sized, inside⟩
    have content : bytes.slice? (offset + 4) size = some ((bytes.drop (offset + 4)).take size) := if_pos inside
    simp only [blobAt, word_eq_ok.mpr sized, bind, Except.bind, content]
    exact ⟨_, rfl⟩

/-- A value is decoded just when all its bytes are there. -/
theorem decodeAt_ok_iff : (∃ a, decodeAt bytes offset tag = .ok a) ↔ tag.IsWhole bytes offset := by
  cases tag with
  | string | symbol => exact ok_map_iff.trans textAt_ok_iff
  | blob => exact ok_map_iff.trans blobAt_ok_iff
  | bool _ | nil | infinitum | arrayOpen | arrayClose => exact ⟨fun _ => trivial, fun _ => ⟨_, rfl⟩⟩
  | _ => exact ok_map_iff.trans word_ok_iff

theorem tag_of_decodeAt (decoded : decodeAt bytes offset tag = .ok a) : a.tag = tag.reported := by
  cases tag with
  | bool _ | nil | infinitum | arrayOpen | arrayClose =>
    cases decoded
    rfl
  | _ =>
    obtain ⟨_, _, rfl⟩ := ok_of_map decoded
    rfl

/-- The tag and the place that are recorded for an argument. -/
structure Records (arguments : Arguments) (index : Nat) (tag : Tag) (offset : Nat) : Prop where
  tag : arguments.table.tags[index]? = some tag
  place : arguments.table.offsets[index]? = some offset

variable {arguments : Arguments} {r : Reader} {index : Nat}

theorem records (inside : index < arguments.count) : ∃ tag offset, arguments.Records index tag offset := by
  obtain ⟨tag, offset, tagged, place, _⟩ := located inside
  exact ⟨tag, offset, tagged, place⟩

namespace Records

theorem get_eq (recorded : arguments.Records index tag offset) :
    arguments.get index = decodeAt arguments.bytes offset tag := by
  obtain ⟨_, same, decoded⟩ := decoded recorded.place
  rw [recorded.tag] at same
  cases same
  exact decoded

end Records

theorem read_of_error {e : Error} (failed : arguments.get index = .error e) :
    arguments.read r.conversion index = .error e := by
  rw [read, failed]
  rfl

/-- No reader gives a value whose bytes are not all there. -/
theorem Records.read_torn (recorded : arguments.Records index tag offset) (torn : ¬ tag.IsWhole arguments.bytes offset)
    (r : Reader) : ∃ place needed, arguments.read r.conversion index = .error (.truncated place needed) := by
  cases decoded : decodeAt arguments.bytes offset tag with
  | error e =>
    obtain ⟨place, needed, rfl⟩ := (decodeAt_error decoded).1
    exact ⟨place, needed, read_of_error (recorded.get_eq.trans decoded)⟩
  | ok a => exact absurd (decodeAt_ok_iff.mp ⟨a, decoded⟩) torn

theorem Records.read_foreign (recorded : arguments.Records index tag offset)
    (whole : tag.IsWhole arguments.bytes offset) (foreign : tag ∉ r.column) :
    arguments.read r.conversion index = .error (.typeMismatch index tag.reported r.expected) := by
  obtain ⟨a, decoded⟩ := decodeAt_ok_iff.mpr whole
  have found : arguments.get index = .ok a := recorded.get_eq.trans decoded
  have reported := tag_of_decodeAt decoded
  have refused : r.conversion.convert? a = none := by
    rwa [r.convert_eq_none, reported, tag.reported_mem]
  simp only [read, found, bind, Except.bind, refused, reported, r.conversion_expected]

theorem Records.read_known (recorded : arguments.Records index tag offset)
    (whole : tag.IsWhole arguments.bytes offset) (known : tag ∈ r.column) :
    ∃ v, arguments.read r.conversion index = .ok v := by
  obtain ⟨a, decoded⟩ := decodeAt_ok_iff.mpr whole
  have found : arguments.get index = .ok a := recorded.get_eq.trans decoded
  obtain ⟨v, converted⟩ : ∃ v, r.conversion.convert? a = some v := by
    rwa [r.convert_eq_some, tag_of_decodeAt decoded, tag.reported_mem]
  refine ⟨v, ?_⟩
  simp only [read, found, bind, Except.bind, converted]

/-- The answers that a reader may give for an argument: of four, the first that applies. -/
inductive Answer (arguments : Arguments) (r : Reader) (index : Nat) : Except Error r.Value → Prop
  | past : arguments.count ≤ index → arguments.Answer r index (.error (.indexOutOfRange index arguments.count))
  | torn {tag : Tag} {offset place needed : Nat} : arguments.Records index tag offset →
      ¬ tag.IsWhole arguments.bytes offset → arguments.Answer r index (.error (.truncated place needed))
  | foreign {tag : Tag} {offset : Nat} : arguments.Records index tag offset → tag.IsWhole arguments.bytes offset →
      tag ∉ r.column → arguments.Answer r index (.error (.typeMismatch index tag.reported r.expected))
  | known {tag : Tag} {offset : Nat} {v : r.Value} : arguments.Records index tag offset →
      tag.IsWhole arguments.bytes offset → tag ∈ r.column → arguments.Answer r index (.ok v)

theorem answer {found : Except Error r.Value} (given : arguments.read r.conversion index = found) :
    arguments.Answer r index found := by
  rw [← given]
  by_cases inside : index < arguments.count
  · obtain ⟨tag, offset, recorded⟩ := records inside
    by_cases whole : tag.IsWhole arguments.bytes offset
    · by_cases known : tag ∈ r.column
      · obtain ⟨v, read⟩ := recorded.read_known whole known
        exact read ▸ .known recorded whole known
      · exact recorded.read_foreign whole known ▸ .foreign recorded whole known
    · obtain ⟨place, needed, cut⟩ := recorded.read_torn whole r
      exact cut ▸ .torn recorded whole
  · have past : arguments.count ≤ index := Nat.not_lt.mp inside
    exact read_of_error (get_past past) ▸ .past past

theorem isNilOrInfinitum_past (past : arguments.count ≤ index) :
    arguments.isNilOrInfinitum index = .error (.indexOutOfRange index arguments.count) := by
  rw [isNilOrInfinitum, tag_past past]
  rfl

theorem isNilOrInfinitum_of_tag (tagged : arguments.table.tags[index]? = some tag) :
    arguments.isNilOrInfinitum index = .ok (tag = .nil ∨ tag = .infinitum) := by
  rw [isNilOrInfinitum, Arguments.tag, tagged]
  rfl

/-- Which readers fail for an argument, and how. -/
structure Answers (arguments : Arguments) (index : Nat) : Prop where
  records : index < arguments.count → ∃ tag offset, arguments.Records index tag offset
  outOfRange : ∀ (r : Reader) (i count : Nat),
    arguments.read r.conversion index = .error (.indexOutOfRange i count) ↔
      arguments.count ≤ index ∧ i = index ∧ count = arguments.count
  /-- What is asked for makes no difference to this. -/
  truncated : ∀ r : Reader,
    (∃ place needed, arguments.read r.conversion index = .error (.truncated place needed)) ↔
      ∃ tag offset, arguments.Records index tag offset ∧ ¬ tag.IsWhole arguments.bytes offset
  mismatched : ∀ (r : Reader) (i : Nat) (reported : Tag) (expected : String),
    arguments.read r.conversion index = .error (.typeMismatch i reported expected) ↔
      ∃ tag offset, arguments.Records index tag offset ∧ tag.IsWhole arguments.bytes offset ∧ tag ∉ r.column ∧
        i = index ∧ reported = tag.reported ∧ expected = r.expected
  read : ∀ r : Reader, (∃ v, arguments.read r.conversion index = .ok v) ↔
    ∃ tag offset, arguments.Records index tag offset ∧ tag.IsWhole arguments.bytes offset ∧ tag ∈ r.column
  /-- Only the tag counts for this, whatever bytes there are. -/
  nilOrInfinitum : ∀ value : Bool, arguments.isNilOrInfinitum index = .ok value ↔
    ∃ tag offset, arguments.Records index tag offset ∧ (value ↔ tag = .nil ∨ tag = .infinitum)
  nilOrInfinitumFails : ∀ e : Error, arguments.isNilOrInfinitum index = .error e ↔
    arguments.count ≤ index ∧ e = .indexOutOfRange index arguments.count

theorem answers (arguments : Arguments) (index : Nat) : arguments.Answers index where
  records := records
  outOfRange := by
    intro r i count
    constructor
    · intro failed
      cases answer failed with
      | past past => exact ⟨past, rfl, rfl⟩
    · rintro ⟨past, rfl, rfl⟩
      exact read_of_error (get_past past)
  truncated := by
    intro r
    constructor
    · rintro ⟨place, needed, failed⟩
      cases answer failed with
      | torn recorded torn => exact ⟨_, _, recorded, torn⟩
    · rintro ⟨tag, offset, recorded, torn⟩
      exact recorded.read_torn torn r
  mismatched := by
    intro r i reported expected
    constructor
    · intro failed
      cases answer failed with
      | foreign recorded whole foreign => exact ⟨_, _, recorded, whole, foreign, rfl, rfl, rfl⟩
    · rintro ⟨tag, offset, recorded, whole, foreign, rfl, rfl, rfl⟩
      exact recorded.read_foreign whole foreign
  read := by
    intro r
    constructor
    · rintro ⟨v, read⟩
      cases answer read with
      | known recorded whole known => exact ⟨_, _, recorded, whole, known⟩
    · rintro ⟨tag, offset, recorded, whole, known⟩
      exact recorded.read_known whole known
  nilOrInfinitum := by
    intro value
    constructor
    · intro found
      by_cases inside : index < arguments.count
      · obtain ⟨tag, offset, recorded⟩ := records inside
        rw [isNilOrInfinitum_of_tag recorded.tag] at found
        cases found
        exact ⟨tag, offset, recorded, decide_eq_true_iff⟩
      · rw [isNilOrInfinitum_past (Nat.not_lt.mp inside)] at found
        cases found
    · rintro ⟨tag, offset, recorded, same⟩
      rw [isNilOrInfinitum_of_tag recorded.tag]
      exact congrArg Except.ok (by simp [← same])
  nilOrInfinitumFails := by
    intro e
    constructor
    · intro failed
      by_cases inside : index < arguments.count
      · obtain ⟨tag, offset, recorded⟩ := records inside
        rw [isNilOrInfinitum_of_tag recorded.tag] at failed
        cases failed
      · have past : arguments.count ≤ index := Nat.not_lt.mp inside
        rw [isNilOrInfinitum_past past] at failed
        cases failed
        exact ⟨past, rfl⟩
    · rintro ⟨past, rfl⟩
      exact isNilOrInfinitum_past past

end Arguments

end OSC
