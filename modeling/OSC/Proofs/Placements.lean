import OSC.Proofs.Cuts
import OSC.Proofs.Renewals

namespace OSC

variable {bytes : Bytes} {offset stop : Nat} {tag : Tag} {a : Argument} {e : Error}

def Error.IsTruncation (e : Error) : Prop := ∃ place needed, e = .truncated place needed

theorem error_of_map {α β ε : Type} {x : Except ε α} {f : α → β} {e : ε} (failed : x.map f = .error e) :
    x = .error e := by
  cases x with
  | error e' => exact congrArg Except.error (Except.error.inj failed)
  | ok a => cases failed

/-- How many bytes stand for the value: those of a text with its terminator, of a blob with its size. Padding
does not count. -/
def Argument.bareLength : Argument → Nat
  | string text => text.length + 1
  | blob content => 4 + content.length
  | other => other.encode.length

theorem Argument.bareLength_le (a : Argument) : a.bareLength ≤ a.encode.length := by
  cases a with
  | string text =>
    rw [encode, length_paddedText]
    exact lt_paddedLength text.length
  | blob content =>
    have padded := le_align4 content.length
    rw [encode, length_paddedBlob, bareLength]
    omega
  | _ => exact Nat.le_refl _

namespace Arguments

theorem word_take {width n : Nat} (found : word bytes offset width = .ok n) (inside : offset + width ≤ stop) :
    word (bytes.take stop) offset width = .ok n := by
  rw [word, Bytes.word_take inside]
  exact found

theorem textAt_take {text : Bytes} (found : textAt bytes offset = .ok text)
    (inside : offset + (text.length + 1) ≤ stop) : textAt (bytes.take stop) offset = .ok text := by
  obtain ⟨atNul, _⟩ := nul_of_textAt found
  have within := Bytes.nulAt_lt atNul
  have here : (bytes.drop offset).take text.length = text := by
    rw [textAt, if_neg (by omega), atNul] at found
    exact Except.ok.inj found
  have cut : ((bytes.take stop).drop offset).take text.length = text := by
    rw [List.drop_take, List.take_take, Nat.min_eq_left (by omega), here]
  have short : ¬ (bytes.take stop).length < offset := by
    rw [List.length_take]
    omega
  rw [textAt, if_neg short, Bytes.nulAt_take atNul (by omega)]
  exact congrArg Except.ok cut

theorem blobAt_take {content : Bytes} (found : blobAt bytes offset = .ok content)
    (inside : offset + (4 + content.length) ≤ stop) : blobAt (bytes.take stop) offset = .ok content := by
  obtain ⟨size, _⟩ := size_of_blobAt found
  have sized : word bytes offset 4 = .ok content.length := word_eq_ok.mpr size
  have cut : word (bytes.take stop) offset 4 = .ok content.length := word_take sized (by omega)
  have same := @Bytes.slice_take bytes (offset + 4) content.length stop (by omega)
  simp only [blobAt, sized, bind, Except.bind] at found
  simp only [blobAt, cut, same, bind, Except.bind]
  exact found

/-- A value that has bytes lies within those it was decoded from. -/
theorem bare_within (decoded : decodeAt bytes offset tag = .ok a) (any : 0 < a.bareLength) :
    offset + a.bareLength ≤ bytes.length := by
  rcases decodeAt_cases decoded with
    ⟨text, rfl, _, atNul, _⟩ | ⟨content, rfl, _, _, inside⟩ | ⟨_, _, inside⟩
  · exact Bytes.nulAt_lt atNul
  · rw [Argument.bareLength]
    omega
  · have := a.bareLength_le
    omega

/-- A value stays what it is when the bytes are cut behind its own. -/
theorem decodeAt_take (decoded : decodeAt bytes offset tag = .ok a) (inside : offset + a.bareLength ≤ stop) :
    decodeAt (bytes.take stop) offset tag = .ok a := by
  have sized {width : Nat} {f : Nat → Argument} (decoded : (word bytes offset width).map f = .ok a)
      (length : ∀ n, (f n).bareLength = width) : (word (bytes.take stop) offset width).map f = .ok a := by
    obtain ⟨n, found, rfl⟩ := ok_of_map decoded
    rw [length] at inside
    rw [word_take found inside]
    rfl
  cases tag with
  | string | symbol =>
    obtain ⟨text, found, rfl⟩ := ok_of_map decoded
    rw [decodeAt, textAt_take found inside]
    rfl
  | blob =>
    obtain ⟨content, found, rfl⟩ := ok_of_map decoded
    rw [decodeAt, blobAt_take found inside]
    rfl
  | bool _ | nil | infinitum | arrayOpen | arrayClose => exact decoded
  | midi | color => exact sized decoded fun _ => rfl
  | int64 | float64 | timeTag => exact sized decoded fun _ => Bytes.length_ofNat 8 _
  | int32 | float32 | char => exact sized decoded fun _ => Bytes.length_ofNat 4 _

/-- The bytes of a value are those that it takes to decode it. -/
theorem decodeAt_take_iff (decoded : decodeAt bytes offset tag = .ok a) (any : 0 < a.bareLength) (stop : Nat) :
    decodeAt (bytes.take stop) offset tag = .ok a ↔ offset + a.bareLength ≤ stop := by
  refine ⟨fun cut => ?_, decodeAt_take decoded⟩
  have within := bare_within cut any
  rw [List.length_take] at within
  omega

theorem word_error {width : Nat} (failed : word bytes offset width = .error e) :
    e.IsTruncation ∧ bytes.length < offset + width := by
  unfold word at failed
  split at failed
  · cases failed
  · rename_i missing
    cases failed
    exact ⟨⟨_, _, rfl⟩, Bytes.word_eq_none.mp missing⟩

theorem textAt_error (failed : textAt bytes offset = .error e) :
    e.IsTruncation ∧ bytes.length ≤ offset + textSpan bytes offset := by
  unfold textAt at failed
  split at failed
  · cases failed
    exact ⟨⟨_, _, rfl⟩, by omega⟩
  · split at failed
    · cases failed
    · rename_i unended
      cases failed
      refine ⟨⟨_, _, rfl⟩, ?_⟩
      rw [textSpan, unended]
      dsimp only
      omega

theorem blobAt_error (failed : blobAt bytes offset = .error e) :
    e.IsTruncation ∧ bytes.length ≤ offset + blobSpan bytes offset := by
  cases sized : word bytes offset 4 with
  | error e' =>
    have same : blobAt bytes offset = .error e' := by rw [blobAt, sized]; rfl
    rw [same] at failed
    cases failed
    obtain ⟨truncation, past⟩ := word_error sized
    refine ⟨truncation, ?_⟩
    unfold blobSpan
    omega
  | ok size =>
    have read := word_eq_ok.mp sized
    simp only [blobAt, sized, bind, Except.bind] at failed
    split at failed
    · cases failed
    · rename_i missing
      cases failed
      have past := Bytes.slice_eq_none.mp missing
      have padded := le_align4 size
      refine ⟨⟨_, _, rfl⟩, ?_⟩
      rw [blobSpan, read, Option.getD_some]
      omega

/-- What is no value is cut off, and the walk over the values leaves the bytes with it. -/
theorem decodeAt_error (failed : decodeAt bytes offset tag = .error e) :
    e.IsTruncation ∧ bytes.length ≤ offset + tag.span bytes offset := by
  cases tag with
  | string | symbol => exact textAt_error (error_of_map failed)
  | blob => exact blobAt_error (error_of_map failed)
  | bool _ | nil | infinitum | arrayOpen | arrayClose => cases failed
  | _ =>
    obtain ⟨truncation, past⟩ := word_error (error_of_map failed)
    exact ⟨truncation, past.le⟩

/-- Where no bytes are left there is no value that has any. -/
theorem decodeAt_past_error (past : bytes.length ≤ offset) (wide : tag.width? ≠ some 0) :
    ∃ e, decodeAt bytes offset tag = .error e ∧ e.IsTruncation := by
  have nothing : ∃ e, decodeAt [] 0 tag = .error e := by
    cases tag with
    | bool _ | nil | infinitum | arrayOpen | arrayClose => exact absurd rfl wide
    | _ => exact ⟨_, rfl⟩
  obtain ⟨_, nothing⟩ := nothing
  have curtailed := decodeAt_past past [] 0 tag
  rw [nothing] at curtailed
  generalize decodeAt bytes offset tag = found at curtailed ⊢
  cases curtailed with
  | cut place needed => exact ⟨_, rfl, place, needed, rfl⟩

end Arguments

section Layout

variable {tags : List Tag}

theorem layout_lt (start : offset < 2 ^ 64) : ∀ here ∈ layout bytes offset tags, here < 2 ^ 64 := by
  induction tags generalizing offset with
  | nil => exact fun _ member => absurd member List.not_mem_nil
  | cons tag rest ih =>
    intro here member
    rcases List.mem_cons.mp member with rfl | later
    · exact start
    · exact ih (by unfold saturate; omega) here later

theorem le_of_mem_layout (start : offset < 2 ^ 64) : ∀ here ∈ layout bytes offset tags, offset ≤ here := by
  induction tags generalizing offset with
  | nil => exact fun _ member => absurd member List.not_mem_nil
  | cons tag rest ih =>
    intro here member
    rcases List.mem_cons.mp member with rfl | later
    · exact Nat.le_refl _
    · have next : saturate (offset + tag.span bytes offset) ≤ here := ih (by unfold saturate; omega) here later
      unfold saturate at next
      omega

/-- Values begin in the order of their tags. -/
theorem layout_sorted (start : offset < 2 ^ 64) : (layout bytes offset tags).Pairwise (· ≤ ·) := by
  induction tags generalizing offset with
  | nil => exact .nil
  | cons tag rest ih =>
    have next : saturate (offset + tag.span bytes offset) < 2 ^ 64 := by unfold saturate; omega
    refine .cons (fun here later => ?_) (ih next)
    have member : here ∈ layout bytes offset (tag :: rest) := List.mem_cons_of_mem _ later
    exact le_of_mem_layout start here member

theorem layout_le (start : offset < 2 ^ 64) {index later here there : Nat} (order : index ≤ later)
    (atHere : (layout bytes offset tags)[index]? = some here)
    (atThere : (layout bytes offset tags)[later]? = some there) : here ≤ there := by
  obtain ⟨first, rfl⟩ := List.getElem?_eq_some_iff.mp atHere
  obtain ⟨second, rfl⟩ := List.getElem?_eq_some_iff.mp atThere
  rcases Nat.lt_or_eq_of_le order with before | rfl
  · exact List.pairwise_iff_getElem.mp (layout_sorted start) index later first second before
  · exact Nat.le_refl _

theorem layout_next {index here next : Nat} {tag : Tag} (tagged : tags[index]? = some tag)
    (atHere : (layout bytes offset tags)[index]? = some here)
    (atNext : (layout bytes offset tags)[index + 1]? = some next) :
    next = saturate (here + tag.span bytes here) := by
  induction tags generalizing offset index with
  | nil => cases tagged
  | cons first rest ih =>
    cases index with
    | zero =>
      cases tagged
      cases atHere
      cases rest with
      | nil => cases atNext
      | cons second rest => exact (Option.some.inj atNext).symm
    | succ index => exact ih tagged atHere atNext

end Layout

theorem Table.length_offsets (t : Table) : t.offsets.length = t.count := by
  have few := t.length_tags
  rw [offsets, List.length_take, t.length_slots, count]
  omega

namespace Arguments

variable {arguments : Arguments} {index : Nat}

theorem inside_of_place (atIndex : arguments.table.offsets[index]? = some offset) : index < arguments.count :=
  lt_of_lt_of_eq (List.getElem?_eq_some_iff.mp atIndex).1 arguments.table.length_offsets

/-- An argument that is recorded is decoded at its place. -/
theorem located (inside : index < arguments.count) :
    ∃ tag offset, arguments.table.tags[index]? = some tag ∧ arguments.table.offsets[index]? = some offset ∧
      arguments.get index = decodeAt arguments.bytes offset tag := by
  have tagged : arguments.table.tags[index]? = some arguments.table.tags[index] := List.getElem?_eq_getElem inside
  obtain ⟨offset, atIndex⟩ : ∃ offset, arguments.table.offsets[index]? = some offset :=
    ⟨_, List.getElem?_eq_getElem (arguments.table.length_offsets ▸ inside)⟩
  have slot := atIndex
  rw [Table.offsets, List.getElem?_take_of_lt (show index < arguments.table.count from inside)] at slot
  refine ⟨_, offset, tagged, atIndex, ?_⟩
  rw [get, Arguments.tag, tagged]
  simp only [List.getD_eq_getElem?_getD, slot, Option.getD_some]
  rfl

theorem decoded (atIndex : arguments.table.offsets[index]? = some offset) :
    ∃ tag, arguments.table.tags[index]? = some tag ∧ arguments.get index = decodeAt arguments.bytes offset tag := by
  obtain ⟨tag, _, tagged, same, decoded⟩ := located (inside_of_place atIndex)
  rw [atIndex] at same
  cases same
  exact ⟨tag, tagged, decoded⟩

end Arguments

/-- How the places of some arguments, the first of which is at `first`, agree with their values. -/
structure Arguments.Placed (arguments : Arguments) (first : Nat) : Prop where
  recorded : arguments.table.offsets.length = arguments.count
  first : ∀ offset, arguments.table.offsets[0]? = some offset → offset = first
  /-- A value that has bytes has them from its place on, and they are all there. -/
  within : ∀ {index offset : Nat} {tag : Tag} {value : Argument}, arguments.table.tags[index]? = some tag →
    arguments.table.offsets[index]? = some offset → arguments.get index = .ok value → 0 < value.bareLength →
    offset + value.bareLength ≤ arguments.bytes.length ∧
      ∀ stop, decodeAt (arguments.bytes.take stop) offset tag = .ok value ↔ offset + value.bareLength ≤ stop
  /-- Up to the place of the next value there are as many bytes as are appended when this one is written. -/
  next : ∀ {index offset next : Nat} {value : Argument}, arguments.table.offsets[index]? = some offset →
    arguments.table.offsets[index + 1]? = some next → arguments.get index = .ok value →
    ∀ w : Writer, next + w.bytes.length = offset + (w.argument value).bytes.length
  truncated : ∀ {index : Nat} {e : Error}, index < arguments.count → arguments.get index = .error e →
    e.IsTruncation
  /-- Behind a value that is cut off no other is found again. -/
  lost : ∀ {index later : Nat} {tag : Tag} {e : Error}, index < later → arguments.get index = .error e →
    arguments.table.tags[later]? = some tag → tag.width? ≠ some 0 →
    ∃ e, arguments.get later = .error e ∧ e.IsTruncation
  /-- Values are apart and in the order of the tags. -/
  apart : ∀ {index later offset further : Nat} {value : Argument}, index < later →
    arguments.table.offsets[index]? = some offset → arguments.table.offsets[later]? = some further →
    arguments.get index = .ok value → offset + value.bareLength ≤ further

/-- Arguments at the places that a walk over them from `first` on gives. -/
structure Arguments.Laid (arguments : Arguments) (first : Nat) : Prop where
  start : first < 2 ^ 64
  small : arguments.bytes.length < Bytes.limit
  offsets : arguments.table.offsets = layout arguments.bytes first arguments.table.tags

namespace Arguments.Laid

variable {arguments : Arguments} {first index later next : Nat}

theorem ordered (laid : arguments.Laid first) {further : Nat} (order : index ≤ later)
    (atIndex : arguments.table.offsets[index]? = some offset)
    (atLater : arguments.table.offsets[later]? = some further) : offset ≤ further := by
  rw [laid.offsets] at atIndex atLater
  exact layout_le laid.start order atIndex atLater

theorem next_of_span (laid : arguments.Laid first) (tagged : arguments.table.tags[index]? = some tag)
    (atIndex : arguments.table.offsets[index]? = some offset)
    (atNext : arguments.table.offsets[index + 1]? = some next) :
    offset < 2 ^ 64 ∧ next = saturate (offset + tag.span arguments.bytes offset) := by
  rw [laid.offsets] at atIndex atNext
  exact ⟨layout_lt laid.start offset (List.mem_of_getElem? atIndex), layout_next tagged atIndex atNext⟩

theorem next_of_value (laid : arguments.Laid first) {value : Argument}
    (atIndex : arguments.table.offsets[index]? = some offset)
    (atNext : arguments.table.offsets[index + 1]? = some next) (found : arguments.get index = .ok value) :
    next = offset + value.encode.length := by
  obtain ⟨tag, tagged, decoded⟩ := decoded atIndex
  obtain ⟨word, walked⟩ := laid.next_of_span tagged atIndex atNext
  obtain ⟨span, reach⟩ := Argument.length_of_decodeAt (decoded.symm.trans found)
  have small := laid.small
  rw [walked, ← span]
  unfold Bytes.limit at small
  unfold saturate
  omega

/-- The place behind what is no value is past all the bytes, and so are those that follow. -/
theorem past_of_error (laid : arguments.Laid first) {further : Nat} (order : index < later)
    (failed : arguments.get index = .error e) (atLater : arguments.table.offsets[later]? = some further) :
    arguments.bytes.length ≤ further := by
  have recorded := inside_of_place atLater
  obtain ⟨tag, offset, tagged, atIndex, decoded⟩ := located (order.trans recorded)
  obtain ⟨_, next, _, atNext, _⟩ := located (Nat.lt_of_le_of_lt order recorded)
  obtain ⟨word, walked⟩ := laid.next_of_span tagged atIndex atNext
  have past := (decodeAt_error (decoded.symm.trans failed)).2
  have behind := laid.ordered order atNext atLater
  have small := laid.small
  unfold Bytes.limit at small
  unfold saturate at walked
  omega

theorem placed (laid : arguments.Laid first) : arguments.Placed first where
  recorded := arguments.table.length_offsets
  first := by
    intro offset atFirst
    rw [laid.offsets] at atFirst
    cases tags : arguments.table.tags with
    | nil => rw [tags] at atFirst; cases atFirst
    | cons tag rest => rw [tags] at atFirst; exact (Option.some.inj atFirst).symm
  within := by
    intro index offset tag value tagged atIndex found any
    obtain ⟨_, same, decoded⟩ := decoded atIndex
    rw [tagged] at same
    cases same
    have value := decoded.symm.trans found
    exact ⟨bare_within value any, decodeAt_take_iff value any⟩
  next := by
    intro index offset next value atIndex atNext found w
    rw [laid.next_of_value atIndex atNext found, Writer.argument, Writer.append, List.length_append]
    omega
  truncated := by
    intro index e inside failed
    obtain ⟨_, _, _, _, decoded⟩ := located inside
    exact (decodeAt_error (decoded.symm.trans failed)).1
  lost := by
    intro index later tag e order failed tagged wide
    have inside : later < arguments.count := (List.getElem?_eq_some_iff.mp tagged).1
    obtain ⟨_, further, same, atLater, decoded⟩ := located inside
    rw [tagged] at same
    cases same
    rw [decoded]
    exact decodeAt_past_error (laid.past_of_error order failed atLater) wide
  apart := by
    intro index later offset further value order atIndex atLater found
    obtain ⟨_, next, _, atNext, _⟩ := located (Nat.lt_of_le_of_lt order (inside_of_place atLater))
    have next := laid.next_of_value atIndex atNext found
    have behind := laid.ordered order atNext atLater
    have bare := value.bareLength_le
    omega

end Arguments.Laid

/-- All the tags count for where the values begin. Without a comma there are none of either. -/
theorem Message.View.valuesStart_eq (bytes : Bytes) (place : Nat) :
    Tag.listAt bytes place = [] ∨
      valuesStart bytes place = place + paddedLength ((Tag.listAt bytes place).length + 1) := by
  unfold valuesStart Tag.stringLength Tag.listAt
  by_cases comma : bytes[place]? = some Tag.comma
  · right
    rw [if_pos comma, if_pos comma]
  · left
    rw [if_neg comma]

/-- Where a message was found, its first value stands behind the padded address and the padded tag string, in
which all tags count, those too that the table has no room for. From there on each value is at its place: it ends
within the message, the next one begins behind its padding, and once one is cut off all that follow are. -/
theorem PacketBuffer.parseAt_placed {p found : PacketBuffer} {start stop length : Nat}
    (small : p.capacity < Bytes.limit) (parsed : p.parseAt start stop = .ok (found, length)) :
    let tagsStart := start + paddedLength length
    let tags := Tag.listAt (p.bytes.take stop) tagsStart
    found.arguments.bytes = p.bytes.take (min stop p.capacity) ∧ found.arguments.table.tags = tags.take 32 ∧
      found.arguments.Placed (tagsStart + paddedLength (tags.length + 1)) := by
  intro tagsStart tags
  rw [parseAt_eq] at parsed
  obtain ⟨n, address, same⟩ := ok_of_map parsed
  cases same
  have view := p.found_view start stop length
  have visible : (p.found start stop length).arguments.bytes = p.bytes.take stop := congrArg Message.View.visible view
  have recorded : (p.found start stop length).arguments.table.tags = tags.take 32 := congrArg Message.View.tags view
  have offsets : (p.found start stop length).arguments.table.offsets =
      layout (p.bytes.take stop) (Message.View.valuesStart (p.bytes.take stop) tagsStart) (tags.take 32) :=
    congrArg Message.View.offsets view
  have bound := Address.length_lt address
  have short : (p.bytes.take stop).length < Bytes.limit := by
    rw [capacity] at small
    rw [List.length_take]
    omega
  have near : tagsStart ≤ (p.bytes.take stop).length + 4 := by
    have padded := paddedLength_le length
    omega
  have laid : tagsStart + paddedLength (tags.length + 1) < 2 ^ 64 ∧
      (p.found start stop length).arguments.table.offsets =
        layout (p.bytes.take stop) (tagsStart + paddedLength (tags.length + 1)) (tags.take 32) := by
    unfold Bytes.limit at short
    rcases Message.View.valuesStart_eq (p.bytes.take stop) tagsStart with none | place
    · have empty : tags = [] := none
      have four : paddedLength (tags.length + 1) = 4 := by rw [empty]; rfl
      exact ⟨by omega, by rw [offsets, empty]; rfl⟩
    · have bounded := Message.View.valuesStart_le near
      rw [← place, offsets]
      exact ⟨by omega, rfl⟩
  refine ⟨visible.trans (p.take_stop stop).symm, recorded, Arguments.Laid.placed ⟨laid.1, visible ▸ short, ?_⟩⟩
  rw [laid.2, visible, recorded]

/-- A text, a blob that is not all there, a value without bytes, and a number for which no bytes are left. -/
def PacketBuffer.holdingHalf : PacketBuffer :=
  ((new 256).load 2 [47, 120, 0, 0, 44, 115, 98, 84, 105, 0, 0, 0, 104, 105, 0, 0, 0, 0, 0, 9, 1, 2, 3]).1

theorem PacketBuffer.parseAt_placed_half :
    holdingHalf.capacity < Bytes.limit ∧ ∃ found, holdingHalf.parseAt 2 25 = .ok (found, 2) ∧
      let tags := Tag.listAt (holdingHalf.bytes.take 25) 6
      found.arguments.bytes = holdingHalf.bytes.take (min 25 holdingHalf.capacity) ∧
        found.arguments.table.tags = tags.take 32 ∧ tags = [.string, .blob, .bool true, .int32] ∧
        found.arguments.Placed 14 := by
  have small : holdingHalf.capacity < Bytes.limit := by
    rw [holdingHalf, load_capacity, capacity_new]
    decide
  have front : holdingHalf.bytes.take 25 =
      [0, 0, 47, 120, 0, 0, 44, 115, 98, 84, 105, 0, 0, 0, 104, 105, 0, 0, 0, 0, 0, 9, 1, 2, 3] := by
    rw [holdingHalf, load_bytes (by rw [capacity_new]; decide)]
    rfl
  have parsed : holdingHalf.parseAt 2 25 = .ok (holdingHalf.found 2 25 2, 2) := by
    rw [parseAt_eq, front]
    rfl
  have tags : Tag.listAt (holdingHalf.bytes.take 25) 6 = [.string, .blob, .bool true, .int32] := by
    rw [front]
    decide
  obtain ⟨visible, recorded, placed⟩ := parseAt_placed small parsed
  have tagsStart : 2 + paddedLength 2 = 6 := rfl
  rw [tagsStart] at recorded placed
  rw [tags] at placed
  exact ⟨small, _, parsed, visible, recorded, tags, placed⟩

end OSC
