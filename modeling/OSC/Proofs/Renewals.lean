import Mathlib.Data.List.Basic
import OSC.Proofs.RoundTrip

namespace OSC

variable {bytes : Bytes} {offset : Nat}

theorem Bytes.noZero_of_nulAt {n : Nat} (found : nulAt? bytes offset = some n) :
    0 ∉ (bytes.drop offset).take n := by
  obtain ⟨_, _, before⟩ := List.findIdx?_eq_some_iff_getElem.mp found
  intro member
  obtain ⟨i, inside, zero⟩ := List.mem_iff_getElem.mp member
  rw [List.length_take] at inside
  rw [List.getElem_take] at zero
  have passed := before i (by omega)
  rw [zero] at passed
  exact passed rfl

theorem ok_of_map {α β ε : Type} {x : Except ε α} {f : α → β} {b : β} (found : x.map f = .ok b) :
    ∃ a, x = .ok a ∧ f a = b := by
  cases x with
  | error e => cases found
  | ok a => exact ⟨a, rfl, Except.ok.inj found⟩

/-- An address that was found can be found again. -/
theorem Address.slash_and_noZero {start n : Nat} (found : length bytes start = .ok n) :
    ((bytes.drop start).take n).head? = some slash ∧ 0 ∉ (bytes.drop start).take n := by
  have slashed := slash_of_length found
  have inside := (List.getElem?_eq_some_iff.mp slashed).1
  unfold length at found
  rw [if_pos slashed] at found
  split at found
  · rename_i rest atNul
    cases found
    have first : bytes.drop start = slash :: bytes.drop (start + 1) := by
      rw [List.drop_eq_getElem_cons inside, (List.getElem?_eq_some_iff.mp slashed).2]
    rw [first, List.take_succ_cons]
    refine ⟨rfl, fun member => ?_⟩
    rcases List.mem_cons.mp member with zero | later
    · cases zero
    · exact Bytes.noZero_of_nulAt atNul later
  · cases found

namespace Arguments

theorem word_eq_ok {width n : Nat} : word bytes offset width = .ok n ↔ bytes.word? offset width = some n := by
  unfold word
  cases bytes.word? offset width <;> simp

theorem word_within {width n : Nat} (found : word bytes offset width = .ok n) : offset + width ≤ bytes.length :=
  Bytes.word_within (word_eq_ok.mp found)

theorem nul_of_textAt {text : Bytes} (found : textAt bytes offset = .ok text) :
    bytes.nulAt? offset = some text.length ∧ 0 ∉ text := by
  unfold textAt at found
  split at found
  · cases found
  · split at found
    · rename_i n atNul
      cases found
      have inside := Bytes.nulAt_lt atNul
      have size : ((bytes.drop offset).take n).length = n := by
        rw [List.length_take, List.length_drop]
        omega
      exact ⟨size.symm ▸ atNul, Bytes.noZero_of_nulAt atNul⟩
    · cases found

theorem size_of_blobAt {content : Bytes} (found : blobAt bytes offset = .ok content) :
    bytes.word? offset 4 = some content.length ∧ offset + 4 + content.length ≤ bytes.length := by
  unfold blobAt at found
  cases sized : word bytes offset 4 with
  | error _ => rw [sized] at found; cases found
  | ok size =>
    rw [sized] at found
    simp only [bind, Except.bind] at found
    split at found
    · rename_i piece here
      cases found
      rw [Bytes.length_slice here]
      exact ⟨word_eq_ok.mp sized, Bytes.slice_within here⟩
    · cases found

end Arguments

namespace Argument

/-- The argument as it travels: a question mark takes the place of a character outside ASCII. -/
def asSent : Argument → Argument
  | char c => char (if c.toNat < 0x80 then c else '?')
  | other => other

theorem encode_asSent (a : Argument) : a.asSent.encode = a.encode := by
  cases a with
  | char c =>
    by_cases ascii : c.toNat < 0x80
    · simp only [asSent, if_pos ascii]
    · simp only [asSent, encode, asciiCode, if_neg ascii]
      rfl
  | _ => rfl

theorem length_encode_mod (a : Argument) : a.encode.length % 4 = 0 := by
  cases a with
  | string text => exact length_paddedText_mod text
  | blob content =>
    have padded := align4_mod content.length
    rw [encode, length_paddedBlob]
    omega
  | midi m => simp [encode, Midi.toBytes]
  | color c => simp [encode, Color.toBytes]
  | bool _ | nil | infinitum | arrayOpen | arrayClose => rfl
  | _ => simp only [encode, TimeTag.toBytes, Bytes.length_ofNat, Nat.reduceMod]

end Argument

variable {tag : Tag} {a : Argument}

/-- A value is a text up to its terminator, a blob whose content is all there, or as wide as its tag says. -/
theorem Arguments.decodeAt_cases (decoded : decodeAt bytes offset tag = .ok a) :
    (∃ text, a = .string text ∧ (tag = .string ∨ tag = .symbol) ∧
      bytes.nulAt? offset = some text.length ∧ 0 ∉ text) ∨
    (∃ content, a = .blob content ∧ tag = .blob ∧ bytes.word? offset 4 = some content.length ∧
      offset + 4 + content.length ≤ bytes.length) ∨
    a.asSent.Fits tag ∧ tag.width? = some a.encode.length ∧
      (a.encode.length = 0 ∨ offset + a.encode.length ≤ bytes.length) := by
  have sized {width : Nat} {f : Nat → Argument} (decoded : (word bytes offset width).map f = .ok a)
      (known : tag.width? = some width) (fits : ∀ n, (f n).asSent.Fits tag)
      (length : ∀ n, (f n).encode.length = width) :
      a.asSent.Fits tag ∧ tag.width? = some a.encode.length ∧
        (a.encode.length = 0 ∨ offset + a.encode.length ≤ bytes.length) := by
    obtain ⟨n, found, rfl⟩ := ok_of_map decoded
    exact ⟨fits n, by rw [length, known], Or.inr (by rw [length]; exact word_within found)⟩
  cases tag with
  | string =>
    obtain ⟨text, found, rfl⟩ := ok_of_map decoded
    exact Or.inl ⟨text, rfl, Or.inl rfl, nul_of_textAt found⟩
  | symbol =>
    obtain ⟨text, found, rfl⟩ := ok_of_map decoded
    exact Or.inl ⟨text, rfl, Or.inr rfl, nul_of_textAt found⟩
  | blob =>
    obtain ⟨content, found, rfl⟩ := ok_of_map decoded
    exact Or.inr (Or.inl ⟨content, rfl, rfl, size_of_blobAt found⟩)
  | bool _ | nil | infinitum | arrayOpen | arrayClose =>
    cases decoded
    exact Or.inr (Or.inr ⟨rfl, rfl, Or.inl rfl⟩)
  | char =>
    refine Or.inr (Or.inr (sized decoded rfl (fun n => ⟨rfl, ?_⟩) fun _ => Bytes.length_ofNat 4 _))
    split
    · assumption
    · decide
  | midi | color => exact Or.inr (Or.inr (sized decoded rfl (fun _ => rfl) fun _ => rfl))
  | int64 | float64 | timeTag =>
    exact Or.inr (Or.inr (sized decoded rfl (fun _ => rfl) fun _ => Bytes.length_ofNat 8 _))
  | int32 | float32 =>
    exact Or.inr (Or.inr (sized decoded rfl (fun _ => rfl) fun _ => Bytes.length_ofNat 4 _))

/-- What was decoded under a tag can be sent under it again. -/
theorem Argument.fits_of_decodeAt (decoded : Arguments.decodeAt bytes offset tag = .ok a) :
    a.asSent.Fits tag := by
  rcases Arguments.decodeAt_cases decoded with
    ⟨text, rfl, known, _, noZero⟩ | ⟨content, rfl, rfl, size, _⟩ | ⟨fits, _, _⟩
  · exact ⟨known, noZero⟩
  · exact ⟨rfl, Bytes.word_lt size⟩
  · exact fits

/-- Written again, a value takes as many bytes as the walk over the values skipped for it. Of these at
most the padding may have been missing. -/
theorem Argument.length_of_decodeAt (decoded : Arguments.decodeAt bytes offset tag = .ok a) :
    a.encode.length = tag.span bytes offset ∧
      (a.encode.length = 0 ∨ offset + a.encode.length ≤ bytes.length + 3) := by
  rcases Arguments.decodeAt_cases decoded with
    ⟨text, rfl, known, atNul, _⟩ | ⟨content, rfl, rfl, size, inside⟩ | ⟨_, width, inside⟩
  · have within := Bytes.nulAt_lt atNul
    have padded := paddedLength_le text.length
    have span : tag.span bytes offset = paddedLength text.length := by
      rcases known with rfl | rfl <;> simp only [Tag.span, textSpan, atNul]
    rw [encode, length_paddedText, span]
    exact ⟨rfl, Or.inr (by omega)⟩
  · have padded := align4_lt content.length
    rw [encode, length_paddedBlob, Tag.span, blobSpan, size, Option.getD_some]
    exact ⟨rfl, Or.inr (by omega)⟩
  · have span : tag.span bytes offset = a.encode.length := by
      unfold Tag.span
      split
      · cases width
      · cases width
      · cases width
      · rw [width, Option.getD_some]
    rw [span]
    exact ⟨rfl, inside.imp_right (by omega)⟩

/-- The values that tags name, found one behind another from an offset on. -/
inductive Decodes (bytes : Bytes) : Nat → List Tag → List Argument → Prop
  | done {offset : Nat} : Decodes bytes offset [] []
  | next {offset : Nat} {tag : Tag} {tags : List Tag} {a : Argument} {values : List Argument} :
      Arguments.decodeAt bytes offset tag = .ok a →
      Decodes bytes (saturate (offset + tag.span bytes offset)) tags values →
      Decodes bytes offset (tag :: tags) (a :: values)

variable {tags : List Tag} {values : List Argument}

theorem Decodes.of_layout (aligned : values.length = tags.length)
    (each : ∀ index (recorded : index < tags.length), Arguments.decodeAt bytes
      ((layout bytes offset tags).getD index 0) tags[index] = .ok values[index]) :
    Decodes bytes offset tags values := by
  induction tags generalizing offset values with
  | nil =>
    rw [List.length_nil, List.length_eq_zero_iff] at aligned
    subst aligned
    exact .done
  | cons tag rest ih =>
    cases values with
    | nil => cases aligned
    | cons a values =>
      have first := each 0 (Nat.zero_lt_succ _)
      refine .next first (ih (Nat.succ.inj aligned) fun index recorded => ?_)
      exact each (index + 1) (Nat.succ_lt_succ recorded)

theorem Decodes.entries (decodes : Decodes bytes offset tags values) :
    ∃ entries : List Entry, entries.map Entry.tag = tags ∧
      entries.map Entry.value = values.map Argument.asSent := by
  induction decodes with
  | done => exact ⟨[], rfl, rfl⟩
  | @next offset tag tags a values decoded _ ih =>
    obtain ⟨entries, sameTags, sameValues⟩ := ih
    refine ⟨⟨tag, a.asSent, Argument.fits_of_decodeAt decoded⟩ :: entries, ?_, ?_⟩
    · rw [List.map_cons, sameTags]
    · rw [List.map_cons, List.map_cons, sameValues]

/-- Entries with these values are written as the values are. -/
theorem Entry.flatMap_encode {entries : List Entry} (sent : entries.map Entry.value = values.map Argument.asSent) :
    (entries.flatMap fun e => e.value.encode) = values.flatMap Argument.encode := by
  rw [← List.flatMap_map, sent, List.flatMap_map]
  simp only [Argument.encode_asSent]

/-- Written again, the values reach no further than the padding of the last of them. -/
theorem Decodes.length_le (decodes : Decodes bytes offset tags values) (small : bytes.length + 3 < 2 ^ 64)
    (start : offset < 2 ^ 64) :
    (values.flatMap Argument.encode).length = 0 ∨
      offset + (values.flatMap Argument.encode).length ≤ bytes.length + 3 := by
  induction decodes with
  | done => exact Or.inl rfl
  | @next offset tag tags a values decoded _ ih =>
    obtain ⟨span, inside⟩ := Argument.length_of_decodeAt decoded
    have place : saturate (offset + tag.span bytes offset) = offset + a.encode.length := by
      rw [← span]
      unfold saturate
      omega
    have later := ih (by rw [place]; omega)
    rw [place] at later
    rw [List.flatMap_cons, List.length_append]
    omega

theorem length_flatMap_encode_mod (values : List Argument) :
    (values.flatMap Argument.encode).length % 4 = 0 := by
  induction values with
  | nil => rfl
  | cons a rest ih =>
    have first := a.length_encode_mod
    rw [List.flatMap_cons, List.length_append]
    omega

namespace Writer

theorem arguments_ok (w : Writer) (values : List Argument) :
    w.arguments (values.map .ok) = (w.append (values.flatMap Argument.encode), .ok ()) := by
  induction values generalizing w with
  | nil => simp only [List.map_nil, arguments, append, List.flatMap_nil, List.append_nil]
  | cons a rest ih =>
    simp only [List.map_cons, arguments, ih, argument, append, List.flatMap_cons, List.append_assoc]

theorem values_of_arguments {w written : Writer} {results : List (Except Error Argument)}
    (complete : w.arguments results = (written, .ok ())) :
    ∃ values : List Argument, results = values.map .ok := by
  induction results generalizing w with
  | nil => exact ⟨[], rfl⟩
  | cons result rest ih =>
    cases result with
    | error e => cases congrArg Prod.snd complete
    | ok a =>
      obtain ⟨values, same⟩ := ih complete
      exact ⟨a :: values, by rw [same, List.map_cons]⟩

/-- Either all of some results are values, or there is a first error among them. -/
theorem arguments_cases (results : List (Except Error Argument)) :
    (∃ values : List Argument, results = values.map .ok) ∨
      ∃ (values : List Argument) (e : Error) (rest : List (Except Error Argument)),
        results = values.map .ok ++ .error e :: rest := by
  induction results with
  | nil => exact Or.inl ⟨[], rfl⟩
  | cons result rest ih =>
    cases result with
    | error e => exact Or.inr ⟨[], e, rest, rfl⟩
    | ok a =>
      rcases ih with ⟨values, all⟩ | ⟨values, e, later, cut⟩
      · exact Or.inl ⟨a :: values, by rw [all, List.map_cons]⟩
      · exact Or.inr ⟨a :: values, e, later, by rw [cut, List.map_cons, List.cons_append]⟩

theorem arguments_error (w : Writer) (values : List Argument) (e : Error)
    (rest : List (Except Error Argument)) :
    w.arguments (values.map .ok ++ .error e :: rest) = (w.append (values.flatMap Argument.encode), .error e) := by
  induction values generalizing w with
  | nil => simp only [List.map_nil, List.nil_append, arguments, append, List.flatMap_nil, List.append_nil]
  | cons a values ih =>
    simp only [List.map_cons, List.cons_append, arguments, ih, argument, append, List.flatMap_cons,
      List.append_assoc]

theorem message_values {m : Message} {values : List Argument}
    (all : m.arguments.toList = values.map .ok) (w : Writer) :
    w.message m = ({ w with
      bytes := paddedText m.address ++ tagString m.arguments.table.tags ++ values.flatMap Argument.encode },
      .ok ()) := by
  rw [message, all, arguments_ok]
  rfl

/-- Up to its first argument that cannot be decoded a message is written as a whole one is. -/
theorem message_error {m : Message} {values : List Argument} {e : Error} {rest : List (Except Error Argument)}
    (cut : m.arguments.toList = values.map .ok ++ .error e :: rest) (w : Writer) :
    w.message m = ({ w with
      bytes := paddedText m.address ++ tagString m.arguments.table.tags ++ values.flatMap Argument.encode },
      .error e) := by
  rw [message, cut, arguments_error]
  rfl

end Writer

theorem Message.toList_view (m : Message) :
    m.arguments.toList = (List.range m.view.tags.length).map m.view.get :=
  List.map_congr_left fun index _ => m.get_view index

theorem Arguments.tag_past {arguments : Arguments} {index : Nat} (past : arguments.count ≤ index) :
    arguments.tag index = .error (.indexOutOfRange index arguments.count) := by
  have none : arguments.table.tags[index]? = none := List.getElem?_eq_none past
  rw [tag, none]

theorem Arguments.get_past {arguments : Arguments} {index : Nat} (past : arguments.count ≤ index) :
    arguments.get index = .error (.indexOutOfRange index arguments.count) := by
  rw [get, tag_past past]
  rfl

theorem Arguments.get_of_toList {arguments : Arguments} {values : List Argument}
    (all : arguments.toList = values.map .ok) :
    values.length = arguments.count ∧
      ∀ index (recorded : index < values.length), arguments.get index = .ok values[index] := by
  have aligned : values.length = arguments.count := by
    have lengths := congrArg List.length all
    rwa [toList, List.length_map, List.length_map, List.length_range, eq_comm] at lengths
  refine ⟨aligned, fun index recorded => ?_⟩
  have here : arguments.toList[index]? = (values.map Except.ok)[index]? := by rw [all]
  rw [toList, List.getElem?_map, List.getElem?_range (aligned ▸ recorded), List.getElem?_map,
    List.getElem?_eq_getElem recorded] at here
  exact Option.some.inj here

theorem Arguments.toList_of_get {arguments : Arguments} {values : List Argument}
    (aligned : values.length = arguments.count)
    (each : ∀ index (recorded : index < values.length), arguments.get index = .ok values[index]) :
    arguments.toList = values.map .ok := by
  apply List.ext_getElem
  · rw [toList, List.length_map, List.length_map, List.length_range, aligned]
  · intro index _ recorded
    rw [List.length_map] at recorded
    simp only [toList, List.getElem_map, List.getElem_range, each index recorded]

namespace Message.View

variable {start : Nat} {v : View}

theorem length_of_read (found : read bytes start = .ok v) :
    start + v.address.length < bytes.length ∧ v.address.head? = some Address.slash ∧ 0 ∉ v.address := by
  obtain ⟨n, address, rfl⟩ := eq_of_read found
  have inside := Address.length_lt address
  have size : ((bytes.drop start).take n).length = n := by
    rw [List.length_take, List.length_drop]
    omega
  exact ⟨by simp only [size]; exact inside, Address.slash_and_noZero address⟩

theorem decodes_of_read (found : read bytes start = .ok v) (aligned : values.length = v.tags.length)
    (each : ∀ index (recorded : index < values.length), v.get index = .ok values[index]) :
    let tagsStart := start + paddedLength v.address.length
    v.tags = (Tag.listAt bytes tagsStart).take 32 ∧
      Decodes bytes (valuesStart bytes tagsStart) v.tags values := by
  have place := (length_of_read found).1
  obtain ⟨n, address, rfl⟩ := eq_of_read found
  have inside := Address.length_lt address
  have size : ((bytes.drop start).take n).length = n := by
    rw [List.length_take, List.length_drop]
    omega
  rw [size]
  refine ⟨rfl, .of_layout aligned fun index recorded => ?_⟩
  have value := each index (aligned ▸ recorded)
  simp only [get, List.getElem?_eq_getElem recorded] at value
  exact value

/-- What a message has in front of its values is no shorter than what is written for it, but for a tag
string that was missing, and for padding that was missing at the very end. -/
theorem head_le (tagsStart : Nat) :
    let tags := (Tag.listAt bytes tagsStart).take 32
    tags = [] ∧ paddedLength (tags.length + 1) = 4 ∨
      tagsStart + paddedLength (tags.length + 1) ≤ valuesStart bytes tagsStart ∧
        tagsStart + paddedLength (tags.length + 1) ≤ bytes.length + 4 := by
  intro tags
  by_cases comma : bytes[tagsStart]? = some Tag.comma
  · right
    have inside := (List.getElem?_eq_some_iff.mp comma).1
    have run := Tag.length_run_le (bytes.drop (tagsStart + 1))
    rw [List.length_drop] at run
    have few : tags.length ≤ (Tag.run (bytes.drop (tagsStart + 1))).length := by
      simp only [tags, Tag.listAt, if_pos comma, List.length_take]
      omega
    have padded := paddedLength_le (tags.length + 1)
    rw [valuesStart, Tag.stringLength, if_pos comma]
    unfold paddedLength align4 at padded ⊢
    omega
  · left
    have none : tags = [] := by simp only [tags, Tag.listAt, if_neg comma, List.take_nil]
    rw [none]
    exact ⟨rfl, rfl⟩

/-- A message all of whose arguments can be decoded can be sent anew, and is then hardly longer. -/
theorem draft_of_read (small : bytes.length < Bytes.limit) (found : read bytes start = .ok v)
    (aligned : values.length = v.tags.length)
    (each : ∀ index (recorded : index < values.length), v.get index = .ok values[index]) :
    ∃ d : Draft, d.address = v.address ∧ d.tags = v.tags ∧
      d.entries.map Entry.value = values.map Argument.asSent ∧
      d.bytes = paddedText v.address ++ tagString v.tags ++ values.flatMap Argument.encode ∧
      start + d.bytes.length ≤ bytes.length + 7 := by
  obtain ⟨inside, slash, noZero⟩ := length_of_read found
  obtain ⟨few, decodes⟩ := decodes_of_read found aligned each
  obtain ⟨entries, sameTags, sameValues⟩ := decodes.entries
  have bytesEq : (Draft.mk v.address entries slash noZero).bytes =
      paddedText v.address ++ tagString v.tags ++ values.flatMap Argument.encode := by
    simp only [Draft.bytes, Draft.head, Draft.tags, sameTags, Entry.flatMap_encode sameValues]
  refine ⟨⟨v.address, entries, slash, noZero⟩, rfl, sameTags, sameValues, bytesEq, ?_⟩
  have padded := paddedLength_le v.address.length
  have place : valuesStart bytes (start + paddedLength v.address.length) ≤ bytes.length + 8 :=
    valuesStart_le (by omega)
  unfold Bytes.limit at small
  have tail := decodes.length_le (by omega) (by omega)
  have head := @head_le bytes (start + paddedLength v.address.length)
  simp only [← few] at head
  rw [bytesEq, List.length_append, List.length_append, length_paddedText, length_tagString]
  rcases head with ⟨none, four⟩ | ⟨before, fits⟩
  · rw [none] at decodes
    cases decodes
    rw [four, List.flatMap_nil, List.length_nil]
    omega
  · omega

end Message.View

/-- A message that a draft describes in full has its values and no others. -/
theorem Draft.toList_values {arguments : Arguments} (d : Draft) (tags : arguments.table.tags = d.tags)
    (each : ∀ index (recorded : index < d.entries.length), arguments.get index = .ok d.entries[index].value) :
    arguments.toList = (d.entries.map Entry.value).map .ok := by
  have aligned : (d.entries.map Entry.value).length = arguments.count := by
    rw [Arguments.count, Table.count, tags, Draft.tags, List.length_map, List.length_map]
  refine Arguments.toList_of_get aligned fun index recorded => ?_
  rw [List.length_map] at recorded
  rw [List.getElem_map, each index recorded]

/-- A message that a draft describes in full is written anew as the bytes of the draft. -/
theorem Draft.message_bytes {m : Message} (d : Draft) (address : m.address = d.address)
    (tags : m.arguments.table.tags = d.tags)
    (each : ∀ index (recorded : index < d.entries.length),
      m.arguments.get index = .ok d.entries[index].value) (w : Writer) :
    w.message m = ({ w with bytes := d.bytes }, .ok ()) := by
  rw [Writer.message_values (d.toList_values tags each), address, tags, List.flatMap_map]
  rfl

theorem Draft.length_bytes_mod (d : Draft) : d.bytes.length % 4 = 0 := by
  have address := length_paddedText_mod d.address
  have tags := length_tagString_mod d.tags
  have values := length_flatMap_encode_mod (d.entries.map Entry.value)
  rw [List.flatMap_map] at values
  rw [bytes, head, List.length_append, List.length_append]
  omega

namespace PacketBuffer

/-- The draft of a message that was found and could be written anew. -/
theorem draft_of_message {p found : PacketBuffer} {start stop length : Nat} (small : p.capacity < Bytes.limit)
    (parsed : p.parseAt start stop = .ok (found, length)) {w written : Writer}
    (complete : w.message found.message = (written, .ok ())) :
    ∃ d : Draft, written.bytes = d.bytes ∧ d.address = found.address ∧ d.address.length = length ∧
      d.tags = found.table.tags ∧ start + d.bytes.length ≤ min stop p.capacity + 7 ∧
      ∀ index (recorded : index < d.entries.length),
        (found.arguments.get index).map Argument.asSent = .ok d.entries[index].value := by
  obtain ⟨values, all⟩ := Writer.values_of_arguments complete
  obtain ⟨aligned, each⟩ := Arguments.get_of_toList all
  rw [Writer.message_values all] at complete
  rcases p.parseAt_cases start stop with ⟨q, v, read, parsedHere, view, _⟩ | ⟨e, _, failed⟩
  · rw [parsedHere] at parsed
    cases parsed
    subst view
    have visible : (p.bytes.take stop).length = min stop p.capacity := List.length_take
    obtain ⟨d, address, tags, sent, bytes, short⟩ :=
      Message.View.draft_of_read (by omega) read aligned fun index recorded => by
        rw [← Message.get_view, each index recorded]
    refine ⟨d, ?_, address, congrArg List.length address, tags, visible ▸ short, fun index recorded => ?_⟩
    · rw [bytes, ← (Prod.mk.inj complete).1]
      rfl
    · have entries : d.entries.length = values.length := by
        have lengths := congrArg List.length sent
        rwa [List.length_map, List.length_map] at lengths
      have value := congrArg (·[index]?) sent
      simp only [List.getElem?_map, List.getElem?_eq_getElem recorded,
        List.getElem?_eq_getElem (entries ▸ recorded), Option.map_some, Option.some.injEq] at value
      rw [value]
      exact congrArg (Except.map Argument.asSent) (each index (entries ▸ recorded))
  · rw [failed] at parsed
    cases parsed

/-- A draft with no more entries than a table can hold is found whole at the front of a buffer. -/
theorem parse_load_bytes (d : Draft) (few : d.entries.length ≤ 32) {r : PacketBuffer}
    (small : r.capacity < Bytes.limit) (room : d.bytes.length ≤ r.capacity) :
    ∃ found, (r.load 0 d.bytes).1.parse d.bytes.length = .ok (found, d.address.length) ∧
      found.address = d.address ∧ found.table.tags = d.tags ∧
      ∀ index (recorded : index < d.entries.length), found.arguments.get index = .ok d.entries[index].value := by
  obtain ⟨v, shown, address, tags, each⟩ := d.read_bytes (by unfold Bytes.limit at small; omega)
  obtain ⟨found, parsed, rfl⟩ := parse_load room shown
  rw [address] at parsed
  have all : d.tags.take 32 = d.tags := List.take_of_length_le (by rwa [Draft.tags, List.length_map])
  refine ⟨found, parsed, address, tags.trans all, fun index recorded => ?_⟩
  exact (found.message.get_view index).trans (each index recorded (by omega))

end PacketBuffer

/-- A message that was found anywhere, and all of whose arguments can be decoded, has one normal form: what
is written for it is found again as the same message, in any buffer, and then written alike. It is longer
than what it was found in only by padding, or a tag string, that was missing there. -/
theorem PacketBuffer.message_normal_form {p found : PacketBuffer} {start stop length : Nat}
    (small : p.capacity < Bytes.limit) (parsed : p.parseAt start stop = .ok (found, length))
    {w written : Writer} (complete : w.message found.message = (written, .ok ())) :
    written.bytes.length % 4 = 0 ∧ start + written.bytes.length ≤ min stop p.capacity + 7 ∧
      ∀ r : PacketBuffer, r.capacity < Bytes.limit → written.bytes.length ≤ r.capacity →
        ∃ again, (r.load 0 written.bytes).1.parse written.bytes.length = .ok (again, length) ∧
          again.address = found.address ∧ again.table.tags = found.table.tags ∧
          (∀ index, again.arguments.get index = (found.arguments.get index).map Argument.asSent) ∧
          ∀ other : Writer, other.message again.message = ({ other with bytes := written.bytes }, .ok ()) := by
  obtain ⟨d, bytes, address, width, tags, short, each⟩ := draft_of_message small parsed complete
  subst width
  have count : d.entries.length = found.arguments.count := by
    have lengths := congrArg List.length tags
    rwa [Draft.tags, List.length_map] at lengths
  rw [bytes]
  refine ⟨d.length_bytes_mod, short, fun r smallR room => ?_⟩
  obtain ⟨again, parsedAgain, addressAgain, tagsAgain, eachAgain⟩ :=
    parse_load_bytes d (count ▸ found.table.length_tags) smallR room
  have countAgain : again.arguments.count = found.arguments.count := congrArg List.length (tagsAgain.trans tags)
  refine ⟨again, parsedAgain, addressAgain.trans address, tagsAgain.trans tags, fun index => ?_, fun other => ?_⟩
  · by_cases recorded : index < d.entries.length
    · rw [eachAgain index recorded, each index recorded]
    · have past : found.arguments.count ≤ index := by omega
      rw [Arguments.get_past past, Arguments.get_past (countAgain ▸ past), countAgain]
      rfl
  · exact d.message_bytes addressAgain tagsAgain eachAgain other

/-- A message behind another byte, with a byte of garbage for padding, no end of its tag string, and a
character that is not ASCII. -/
def PacketBuffer.holdingLoose : PacketBuffer :=
  ((new 256).load 1 [47, 97, 0, 33, 44, 99, 84, 120, 0, 0, 0, 233]).1

theorem PacketBuffer.message_normal_form_loose :
    holdingLoose.capacity < Bytes.limit ∧
      ∃ found, holdingLoose.parseAt 1 13 = .ok (found, 2) ∧
      let written : Writer := ⟨.ascii, [47, 97, 0, 0, 44, 99, 84, 0, 0, 0, 0, 63]⟩
      (Writer.new .ascii).message found.message = (written, .ok ()) ∧
      written.bytes.length % 4 = 0 ∧ 1 + written.bytes.length ≤ min 13 holdingLoose.capacity + 7 ∧
      ∀ r : PacketBuffer, r.capacity < Bytes.limit → written.bytes.length ≤ r.capacity →
        ∃ again, (r.load 0 written.bytes).1.parse written.bytes.length = .ok (again, 2) ∧
          again.address = found.address ∧ again.table.tags = found.table.tags ∧
          (∀ index, again.arguments.get index = (found.arguments.get index).map Argument.asSent) ∧
          ∀ other : Writer, other.message again.message = ({ other with bytes := written.bytes }, .ok ()) := by
  have small : holdingLoose.capacity < Bytes.limit := by
    rw [holdingLoose, load_capacity, capacity_new]
    decide
  have front : holdingLoose.bytes.take 13 = [0, 47, 97, 0, 33, 44, 99, 84, 120, 0, 0, 0, 233] := by
    rw [holdingLoose, load_bytes (by rw [capacity_new]; decide)]
    rfl
  have read : Message.View.read (holdingLoose.bytes.take 13) 1 = .ok ⟨[47, 97],
      [0, 47, 97, 0, 33, 44, 99, 84, 120, 0, 0, 0, 233], [.char, .bool true], [9, 13]⟩ := by
    rw [front]
    rfl
  rcases holdingLoose.parseAt_cases 1 13 with ⟨found, v, readHere, parsed, view, _⟩ | ⟨e, failed, _⟩
  · rw [read] at readHere
    cases readHere
    have all : found.message.arguments.toList = [.ok (.char 'é'), .ok (.bool true)] := by
      rw [Message.toList_view, view]
      decide +kernel
    have complete : (Writer.new .ascii).message found.message =
        (⟨.ascii, [47, 97, 0, 0, 44, 99, 84, 0, 0, 0, 0, 63]⟩, .ok ()) := by
      have address : found.message.address = [47, 97] := congrArg Message.View.address view
      have tags : found.message.arguments.table.tags = [.char, .bool true] := congrArg Message.View.tags view
      rw [@Writer.message_values _ [.char 'é', .bool true] all, address, tags]
      rfl
    exact ⟨small, found, parsed, complete, message_normal_form small parsed complete⟩
  · rw [read] at failed
    cases failed

end OSC
