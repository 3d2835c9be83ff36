import OSC.Proofs.BundleElements

namespace OSC.Bundle

variable {bytes other : Bytes} {start stop position : Nat}

/-- Content behind its size, as an element stands in a bundle. -/
def sized (content : Bytes) : Bytes := Bytes.ofNat 4 content.length ++ content

/-- Elements one behind another from `position` on, each behind a size that is not negative. None of them reaches
past `stop`. -/
inductive Chain (bytes : Bytes) (stop : Nat) : Nat → List Extent → Prop
  | done {position : Nat} : Chain bytes stop position []
  | next {position size : Nat} {rest : List Extent} : bytes.word? position 4 = some size → size < 2 ^ 31 →
      position + 4 + size ≤ stop → Chain bytes stop (position + 4 + size) rest →
      Chain bytes stop position (⟨position + 4, position + 4 + size⟩ :: rest)

/-- Where elements with these contents lie, the first of them behind its size at `position`. -/
def extents : Nat → List Bytes → List Extent
  | _, [] => []
  | position, content :: rest =>
    ⟨position + 4, position + 4 + content.length⟩ :: extents (position + 4 + content.length) rest

theorem Chain.short {elements : List Extent} (chain : Chain bytes stop position elements) :
    ∀ e ∈ elements, e.stop - e.start < 2 ^ 31 := by
  induction chain with
  | done => exact fun _ member => absurd member List.not_mem_nil
  | @next position size _ _ signless _ _ ih =>
    intro e member
    rcases List.mem_cons.mp member with rfl | later
    · dsimp only
      omega
    · exact ih e later

theorem header_of_open {time : TimeTag} {c : Cursor} (opened : open? bytes start stop = .ok (time, c)) :
    start + 16 ≤ min stop bytes.length := by
  unfold open? at opened
  dsimp only at opened
  split at opened
  · split at opened
    · rename_i word
      have inside := Bytes.word_within word
      rw [List.length_take] at inside
      omega
    · cases opened
  · cases opened

theorem slice_eq_take {width : Nat} (inside : start + width ≤ bytes.length) :
    bytes.slice? start width = some ((bytes.drop start).take width) := if_pos inside

/-- A header is its marker and the eight bytes behind it. -/
theorem open_ok_iff :
    (∃ time c, open? bytes start stop = .ok (time, c)) ↔
      start + 16 ≤ min stop bytes.length ∧ (bytes.drop start).take 8 = marker := by
  constructor
  · rintro ⟨time, c, opened⟩
    have room := header_of_open opened
    have marked := marked_iff.mp (marked_of_take (marked_of_open opened))
    rw [slice_eq_take (by omega)] at marked
    exact ⟨room, Option.some.inj marked⟩
  · rintro ⟨room, marker⟩
    have marked : isMarkedAt (bytes.take (min stop bytes.length)) start := by
      rw [marked_iff, Bytes.slice_take (by omega), slice_eq_take (by omega), marker]
    cases word : Bytes.word? (bytes.take (min stop bytes.length)) (start + 8) 8 with
    | none =>
      rw [Bytes.word_eq_none, List.length_take] at word
      omega
    | some time =>
      refine ⟨.ofNat time, ⟨start + 16, min stop bytes.length⟩, ?_⟩
      simp only [open?, if_pos marked, word]

namespace Cursor

/-- What calls of a cursor give, each of which is shown some bytes. Where there is nothing left it stays. -/
def answers (c : Cursor) : List Bytes → List (Option (Except Fault Extent))
  | [] => []
  | shown :: rest =>
    match c.next? shown with
    | none => none :: c.answers rest
    | some (item, after) => some item :: after.answers rest

/-- The elements among some answers. -/
def found (answers : List (Option (Except Fault Extent))) : List Extent :=
  answers.filterMap (·.bind (·.toOption))

/-- The elements are a chain of those that are there. -/
theorem elements_chain (c : Cursor) : Chain bytes c.stop c.position (c.elements bytes) := by
  fun_induction c.items bytes with
  | case1 c finished =>
    rw [elements_none finished]
    exact .done
  | case2 c item after step ih =>
    rw [elements_some step]
    rcases next_cases step with ⟨size, word, signless, inside, rfl, rfl⟩ | ⟨fault, rfl, rfl⟩
    · exact .next word signless inside ih
    · rw [elements_none (finished_of_fault step)]
      exact .done

/-- There is no longer chain than that of the elements. -/
theorem prefix_of_chain {elements : List Extent} (chain : Chain bytes stop position elements) :
    elements <+: (Cursor.mk position stop).elements bytes := by
  induction chain with
  | done => exact List.nil_prefix
  | next word signless inside _ ih =>
    rw [elements_some (next_of_size word signless inside)]
    exact (List.prefix_cons_inj _).mpr ih

/-- Every item takes four bytes or is the last. -/
theorem length_items_le (c : Cursor) : (c.items bytes).length ≤ (c.stop - c.position + 3) / 4 := by
  fun_induction c.items bytes with
  | case1 c finished => exact Nat.zero_le _
  | case2 c item after step ih =>
    have advances := next_advances step
    rw [List.length_cons]
    rcases next_cases step with ⟨size, _, _, inside, rfl, rfl⟩ | ⟨fault, rfl, rfl⟩
    · dsimp only at ih
      omega
    · rw [items_none (finished_of_fault step), List.length_nil]
      omega

theorem answers_ended {c : Cursor} (ended : c.stop ≤ c.position) (calls : List Bytes) :
    c.answers calls = calls.map fun _ => none := by
  induction calls with
  | nil => rfl
  | cons shown rest ih => rw [answers, next_eq_none.mpr ended, ih, List.map_cons]

/-- A cursor that is shown the same bytes again and again gives the items, and then nothing any more. -/
theorem answers_replicate (c : Cursor) (n : Nat) :
    c.answers (List.replicate n bytes) = (List.range n).map fun k => (c.items bytes)[k]? := by
  induction n generalizing c with
  | zero => rfl
  | succ n ih =>
    rw [List.replicate_succ, List.range_succ_eq_map, List.map_cons, List.map_map, answers]
    cases step : c.next? bytes with
    | none =>
      have none_left := items_none step
      simp only [ih, none_left, List.getElem?_nil, Function.comp_def]
    | some next =>
      obtain ⟨item, after⟩ := next
      simp only [ih, items_some step, List.getElem?_cons_zero, List.getElem?_cons_succ, Function.comp_def]

/-- What is found in the first bytes alone is a chain in all of them. -/
theorem found_chain (c : Cursor) {calls : List Bytes} (fronts : ∀ shown ∈ calls, shown <+: bytes) :
    Chain bytes c.stop c.position (found (c.answers calls)) := by
  induction calls generalizing c with
  | nil => exact .done
  | cons shown rest ih =>
    have front := fronts shown List.mem_cons_self
    have later : ∀ shown ∈ rest, shown <+: bytes := fun shown member => fronts shown (List.mem_cons_of_mem _ member)
    rw [answers]
    cases step : c.next? shown with
    | none => exact ih c later
    | some next =>
      obtain ⟨item, after⟩ := next
      rcases next_cases step with ⟨size, word, signless, inside, rfl, rfl⟩ | ⟨fault, rfl, rfl⟩
      · obtain ⟨more, rfl⟩ := front
        exact .next (Bytes.word_append word more) signless inside (ih ⟨c.position + 4 + size, c.stop⟩ later)
      · have nothing : found (answers ⟨c.stop, c.stop⟩ rest) = [] := by
          rw [answers_ended (Nat.le_refl _), found, List.filterMap_map]
          exact List.filterMap_eq_nil_iff.mpr fun _ _ => rfl
        dsimp only
        rw [found, List.filterMap_cons, ← found, nothing]
        exact .done

end Cursor

theorem length_sized (content : Bytes) : (sized content).length = 4 + content.length := by
  rw [sized, List.length_append, Bytes.length_ofNat]

/-- Up to the end of a bundle there is an element with its size, and what is behind it. -/
theorem region_of_size {size : Nat} (within : stop ≤ bytes.length) (word : bytes.word? position 4 = some size)
    (inside : position + 4 + size ≤ stop) :
    (bytes.take stop).drop position =
      sized ((Extent.mk (position + 4) (position + 4 + size)).content bytes) ++
        (bytes.take stop).drop (position + 4 + size) := by
  have length : (bytes.take stop).length = stop := List.length_take_of_le within
  have cut : bytes.take (position + 4 + size) = (bytes.take stop).take (position + 4 + size) := by
    rw [List.take_take, Nat.min_eq_left inside]
  have content : (Extent.mk (position + 4) (position + 4 + size)).content bytes =
      ((bytes.take stop).drop (position + 4)).take size := by
    rw [Extent.content, cut, List.drop_take, Nat.add_sub_cancel_left]
  have four : Bytes.ofNat 4 size = ((bytes.take stop).drop position).take 4 := by
    rw [← Bytes.word_take (by omega : position + 4 ≤ stop), Bytes.word?, slice_eq_take (by omega)] at word
    have digits : (((bytes.take stop).drop position).take 4).length = 4 := by
      rw [List.length_take, List.length_drop]
      omega
    have whole := Bytes.ofNat_toNat (((bytes.take stop).drop position).take 4)
    rwa [digits, Option.some.inj word] at whole
  have long : (((bytes.take stop).drop (position + 4)).take size).length = size := by
    rw [List.length_take, List.length_drop]
    omega
  have behind : (bytes.take stop).drop (position + 4 + size) =
      ((bytes.take stop).drop (position + 4)).drop size := List.drop_drop.symm
  calc (bytes.take stop).drop position
      = Bytes.ofNat 4 size ++ (bytes.take stop).drop (position + 4) := by
        rw [four, ← List.drop_drop, List.take_append_drop]
    _ = Bytes.ofNat 4 size ++ (((bytes.take stop).drop (position + 4)).take size ++
          (bytes.take stop).drop (position + 4 + size)) := by
        rw [behind, List.take_append_drop]
    _ = _ := by rw [content, sized, long, List.append_assoc]

/-- Bytes that hold a size and its content at a place are read as an element there. -/
theorem size_of_region {content rest : Bytes} (within : stop ≤ bytes.length) (small : content.length < 2 ^ 31)
    (region : (bytes.take stop).drop position = sized content ++ rest) :
    bytes.word? position 4 = some content.length ∧ position + 4 + content.length ≤ stop ∧
      (Extent.mk (position + 4) (position + 4 + content.length)).content bytes = content ∧
      (bytes.take stop).drop (position + 4 + content.length) = rest := by
  have length : (bytes.take stop).length = stop := List.length_take_of_le within
  have room : position + 4 + content.length ≤ stop := by
    have lengths := congrArg List.length region
    rw [List.length_drop, List.length_append, length_sized] at lengths
    omega
  have behind : (bytes.take stop).drop (position + 4) = content ++ rest := by
    rw [← List.drop_drop, region, sized, List.append_assoc]
    exact List.drop_left' (Bytes.length_ofNat 4 _)
  have cut : bytes.take (position + 4 + content.length) = (bytes.take stop).take (position + 4 + content.length) := by
    rw [List.take_take, Nat.min_eq_left room]
  refine ⟨?_, room, ?_, ?_⟩
  · have front := Bytes.word_front (Bytes.ofNat 4 content.length) (content ++ rest)
    rw [Bytes.length_ofNat, Bytes.toNat_ofNat, Nat.mod_eq_of_lt (by omega), ← List.append_assoc, ← sized, ← region,
      Bytes.word_drop (by omega), Nat.add_zero] at front
    rw [← Bytes.word_take (by omega : position + 4 ≤ stop), front]
  · rw [Extent.content, cut, List.drop_take, behind, Nat.add_sub_cancel_left, List.take_left]
  · rw [← List.drop_drop, behind, List.drop_left]

namespace Cursor

/-- Without a fault the elements take up all the bytes to the end. -/
theorem region_of_faultless {c : Cursor} (order : c.position ≤ c.stop) (within : c.stop ≤ bytes.length)
    (faultless : ∀ fault, .error fault ∉ c.items bytes) :
    (bytes.take c.stop).drop c.position = ((c.elements bytes).map (·.content bytes)).flatMap sized := by
  fun_induction c.items bytes with
  | case1 c finished =>
    have ended := next_eq_none.mp finished
    rw [elements_none finished, List.drop_eq_nil_of_le (by rw [List.length_take_of_le within]; exact ended)]
    rfl
  | case2 c item after step ih =>
    rw [elements_some step]
    rcases next_cases step with ⟨size, word, signless, inside, rfl, rfl⟩ | ⟨fault, rfl, rfl⟩
    · have rest := ih inside within fun fault member => faultless fault (List.mem_cons_of_mem _ member)
      rw [region_of_size within word inside, rest]
      rfl
    · exact absurd List.mem_cons_self (faultless fault)

/-- Bytes made of elements with their sizes are read as these elements. -/
theorem items_of_region (within : stop ≤ bytes.length) {contents : List Bytes}
    (small : ∀ content ∈ contents, content.length < 2 ^ 31) (order : position ≤ stop)
    (region : (bytes.take stop).drop position = contents.flatMap sized) :
    (Cursor.mk position stop).items bytes = (extents position contents).map .ok ∧
      (extents position contents).map (·.content bytes) = contents ∧
      (position :: (extents position contents).map (·.stop)).getLast? = some stop := by
  induction contents generalizing position with
  | nil =>
    have ended : stop ≤ position := by
      have length := congrArg List.length region
      rw [List.length_drop, List.length_take_of_le within, List.flatMap_nil, List.length_nil] at length
      omega
    have same : position = stop := Nat.le_antisymm order ended
    rw [items_none (next_eq_none.mpr ended), same]
    exact ⟨rfl, rfl, rfl⟩
  | cons content rest ih =>
    rw [List.flatMap_cons] at region
    have short := small content List.mem_cons_self
    obtain ⟨word, inside, here, behind⟩ := size_of_region within short region
    obtain ⟨items, contents, last⟩ := ih (fun _ member => small _ (List.mem_cons_of_mem _ member)) inside behind
    refine ⟨?_, ?_, ?_⟩
    · rw [items_some (next_of_size word short inside), items]
      rfl
    · rw [extents, List.map_cons, here, contents]
    · rw [extents, List.map_cons, List.getLast?_cons_cons, last]

end Cursor

/-- How a cursor goes over the bytes of a bundle from `first` to `stop`. -/
structure Cursor.Tiles (c : Cursor) (bytes : Bytes) (first stop : Nat) : Prop where
  /-- Call after call gives one item after another, and then nothing any more. -/
  answers : ∀ n, c.answers (List.replicate n bytes) = (List.range n).map fun k => (c.items bytes)[k]?
  few : (c.items bytes).length ≤ (stop - first + 3) / 4
  items : ∃ fault : Option Fault, c.items bytes = (c.elements bytes).map .ok ++ fault.toList.map .error
  chain : Chain bytes stop first (c.elements bytes)
  longest : ∀ elements, Chain bytes stop first elements → elements <+: c.elements bytes
  faultless : (∀ fault, .error fault ∉ c.items bytes) ↔ ∃ contents : List Bytes,
    (∀ content ∈ contents, content.length < 2 ^ 31) ∧ (bytes.take stop).drop first = contents.flatMap sized
  /-- Elements that fill the bytes are those that are found, and the last of them ends where the bundle does. -/
  exact : ∀ contents : List Bytes, (∀ content ∈ contents, content.length < 2 ^ 31) →
    (bytes.take stop).drop first = contents.flatMap sized →
    c.items bytes = (extents first contents).map .ok ∧
      (c.elements bytes).map (·.content bytes) = contents ∧
      (first :: (c.elements bytes).map (·.stop)).getLast? = some stop
  /-- However little of the bytes each call is shown, no other elements are found. -/
  shown : ∀ calls : List Bytes, (∀ shown ∈ calls, shown <+: bytes) → found (c.answers calls) <+: c.elements bytes

theorem Cursor.tiles (order : position ≤ stop) (within : stop ≤ bytes.length) :
    (Cursor.mk position stop).Tiles bytes position stop := by
  have filled (contents : List Bytes) (small : ∀ content ∈ contents, content.length < 2 ^ 31)
      (region : (bytes.take stop).drop position = contents.flatMap sized) :
      (Cursor.mk position stop).items bytes = (extents position contents).map .ok ∧
        ((Cursor.mk position stop).elements bytes).map (·.content bytes) = contents ∧
        (position :: ((Cursor.mk position stop).elements bytes).map (·.stop)).getLast? = some stop := by
    obtain ⟨items, held, last⟩ := items_of_region within small order region
    have elements : (Cursor.mk position stop).elements bytes = extents position contents := by
      rw [Cursor.elements, items, List.filterMap_map]
      exact List.filterMap_some
    rw [elements]
    exact ⟨items, held, last⟩
  exact {
    answers := answers_replicate _
    few := length_items_le _
    items := items_eq _
    chain := elements_chain ⟨position, stop⟩
    longest := fun _ chain => prefix_of_chain chain
    faultless := by
      refine ⟨fun faultless => ⟨_, ?_, region_of_faultless order within faultless⟩, ?_⟩
      · intro content member
        obtain ⟨e, found, rfl⟩ := List.mem_map.mp member
        have inside : e.stop ≤ stop := (elements_within found).2
        rw [Extent.length_content (by omega)]
        exact (elements_chain _).short e found
      · rintro ⟨contents, small, region⟩ fault member
        rw [(filled contents small region).1] at member
        obtain ⟨_, _, same⟩ := List.mem_map.mp member
        cases same
    exact := filled
    shown := fun _ fronts => prefix_of_chain (found_chain ⟨position, stop⟩ fronts) }

/-- A bundle is opened where its marker and its time tag are, and nowhere else. Its cursor gives the elements that
stand one behind another from there on, as many as there are before the first fault, if there is one; it comes to an
end, and stays there. Nothing before the bundle or behind it has a part in this. -/
theorem open_tiles (bytes : Bytes) (start stop : Nat) :
    let last := min stop bytes.length
    ((∃ time c, open? bytes start stop = .ok (time, c)) ↔
      start + 16 ≤ last ∧ (bytes.drop start).take 8 = marker) ∧
    (∀ time c, open? bytes start stop = .ok (time, c) → c.Tiles bytes (start + 16) last) ∧
    ∀ other stop', min stop' other.length = last → (other.take last).drop start = (bytes.take last).drop start →
      open? other start stop' = open? bytes start stop ∧
        ∀ time c, open? bytes start stop = .ok (time, c) →
          ∀ n, c.answers (List.replicate n other) = c.answers (List.replicate n bytes) := by
  intro last
  have place {time : TimeTag} {c : Cursor} (opened : open? bytes start stop = .ok (time, c)) :
      c = ⟨start + 16, last⟩ := by
    obtain ⟨position, stopped⟩ := stop_of_open opened
    cases c
    cases position
    cases stopped
    rfl
  refine ⟨open_ok_iff, fun time c opened => ?_, fun other stop' ends same => ?_⟩
  · rw [place opened]
    exact Cursor.tiles (header_of_open opened) (Nat.min_le_right ..)
  have visible : bytes.take stop = bytes.take last := List.take_eq_take_min
  have otherVisible : other.take stop' = other.take last := by rw [← ends, ← List.take_eq_take_min]
  have lengths : (other.take last).length = (bytes.take last).length := by
    rw [List.length_take, List.length_take]
    omega
  refine ⟨?_, fun time c opened n => ?_⟩
  · rw [← open_take other, ← open_take bytes, visible, otherVisible]
    exact open_congr lengths same
  · have behind : (other.take last).drop (start + 16) = (bytes.take last).drop (start + 16) := by
      rw [← List.drop_drop, same, List.drop_drop]
    rw [place opened, Cursor.answers_replicate, Cursor.answers_replicate, ← Cursor.items_take (Nat.le_refl last),
      ← @Cursor.items_take bytes _ last (Nat.le_refl _), Cursor.items_congr lengths behind (Nat.le_refl _)]

/-- A bundle of two elements, the second of them empty, with other bytes before and behind it. -/
def framed (before after : Bytes) : Bytes :=
  before ++ (marker ++ [0, 0, 0, 0, 0, 0, 0, 1] ++ [0, 0, 0, 4, 47, 97, 0, 0] ++ [0, 0, 0, 0] ++ after)

theorem open_tiles_framed :
    let bytes := framed [7] [0, 0, 1]
    let other := framed [8] []
    let c : Cursor := ⟨17, 29⟩
    open? bytes 1 29 = .ok (⟨0, 1⟩, c) ∧ c.Tiles bytes 17 29 ∧
      c.answers (List.replicate 3 bytes) = [some (.ok ⟨21, 25⟩), some (.ok ⟨29, 29⟩), none] ∧
      (c.elements bytes).map (·.content bytes) = [[47, 97, 0, 0], []] ∧
      Cursor.found (c.answers [bytes.take 26, bytes.take 28]) <+: c.elements bytes ∧
      (other.take 29).drop 1 = (bytes.take 29).drop 1 ∧ open? other 1 40 = .ok (⟨0, 1⟩, c) ∧
      c.answers (List.replicate 3 other) = c.answers (List.replicate 3 bytes) := by
  have opened : open? (framed [7] [0, 0, 1]) 1 29 = .ok (⟨0, 1⟩, ⟨17, 29⟩) := by rfl
  have same : ((framed [8] []).take 29).drop 1 = ((framed [7] [0, 0, 1]).take 29).drop 1 := rfl
  obtain ⟨_, tiles, alike⟩ := open_tiles (framed [7] [0, 0, 1]) 1 29
  have tiling : (Cursor.mk 17 29).Tiles (framed [7] [0, 0, 1]) 17 29 := tiles _ _ opened
  obtain ⟨openedAlike, answeredAlike⟩ := alike (framed [8] []) 40 rfl same
  obtain ⟨_, contents, _⟩ := tiling.exact [[47, 97, 0, 0], []] (by decide) rfl
  have found := tiling.shown [(framed [7] [0, 0, 1]).take 26, (framed [7] [0, 0, 1]).take 28] (by decide)
  exact ⟨opened, tiling, by decide, contents, found, same, openedAlike.trans opened, answeredAlike _ _ opened 3⟩

end OSC.Bundle
