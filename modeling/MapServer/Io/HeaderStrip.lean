import MapServer.Hash.HashMap
import MapServer.Io.Buffer

namespace MapServer
open Lib.ByteFile List Option

structure Buffered (buf : MsIOBuffer) (content : List UInt8) : Prop where
  offset : buf.data_offset = content.length
  allocated : buf.data_len = buf.data.length
  data : buf.data = [] ∧ content = [] ∨ ∃ rest, buf.data = content ++ 0 :: rest

theorem empty_buffered : Buffered emptyBuffer [] := ⟨rfl, rfl, Or.inl ⟨rfl, rfl⟩⟩

theorem storeAt_append (before old bytes after : List UInt8) (same : old.length = bytes.length) :
    storeAt (before ++ old ++ after) before.length bytes = some (before ++ bytes ++ after) := by
  rw [storeAt, if_pos (by simp [same])]
  simp [← same]

theorem grown_buffered (malloc : Nat → UInt8) {buf : MsIOBuffer} {content : List UInt8} (buffered : Buffered buf content)
    {size : Nat} (large : content.length < size) (larger : buf.data_len ≤ size) :
    ∃ tail, SfRealloc malloc buf.data size = content ++ tail ∧ content.length + tail.length = size := by
  have keeps : buf.data.take size = buf.data := take_of_length_le (by rw [← buffered.allocated]; exact larger)
  have length := length_msSmallMalloc malloc (size - buf.data.length)
  rw [buffered.allocated] at larger
  rw [SfRealloc, keeps]
  rcases buffered.data with ⟨data, rfl⟩ | ⟨rest, data⟩
  · refine ⟨msSmallMalloc malloc (size - buf.data.length), by rw [data], ?_⟩
    rw [length, data, length_nil, Nat.zero_add, Nat.sub_zero]
  · refine ⟨0 :: rest ++ msSmallMalloc malloc (size - buf.data.length), by rw [data, append_assoc], ?_⟩
    rw [length_append, length]
    rw [data, length_append] at larger ⊢
    omega

theorem msIO_bufferWrite_buffered (malloc : Nat → UInt8) {buf : MsIOBuffer} {content : List UInt8}
    (buffered : Buffered buf content) (bytes : List UInt8) :
    ∃ next, msIO_bufferWrite malloc bytes buf = some next ∧ Buffered next (content ++ bytes) := by
  have room : ∃ size tail, (if buf.data_offset + bytes.length ≥ buf.data_len then buf.data_len * 2 + bytes.length + 100
        else buf.data_len) = size ∧
      (if buf.data_offset + bytes.length ≥ buf.data_len then SfRealloc malloc buf.data size else buf.data) =
        content ++ tail ∧ content.length + tail.length = size ∧ bytes.length < tail.length := by
    by_cases grows : buf.data_offset + bytes.length ≥ buf.data_len
    · have filled : content.length ≤ buf.data_len := by
        rw [buffered.allocated]
        rcases buffered.data with ⟨_, rfl⟩ | ⟨rest, data⟩
        · exact Nat.zero_le _
        · rw [data, length_append]
          exact Nat.le_add_right _ _
      obtain ⟨tail, grown, length⟩ := grown_buffered malloc buffered
        (by omega : content.length < buf.data_len * 2 + bytes.length + 100) (by omega)
      exact ⟨_, tail, by rw [if_pos grows], by rw [if_pos grows, grown], length, by omega⟩
    · rcases buffered.data with ⟨data, _⟩ | ⟨rest, data⟩
      · rw [buffered.allocated, data] at grows
        exact absurd (Nat.zero_le _) grows
      · have length : content.length + (0 :: rest).length = buf.data_len := by
          rw [buffered.allocated, data, length_append]
        have offset := buffered.offset
        exact ⟨_, 0 :: rest, by rw [if_neg grows], by rw [if_neg grows, data], length, by omega⟩
  obtain ⟨size, tail, isSize, grown, length, enough⟩ := room
  obtain ⟨old, behind, rfl, same⟩ : ∃ old behind, tail = old ++ behind ∧ old.length = bytes.length :=
    ⟨tail.take bytes.length, tail.drop bytes.length, (take_append_drop _ _).symm,
      length_take_of_le (Nat.le_of_lt enough)⟩
  cases behind with
  | nil =>
    rw [append_nil, same] at enough
    exact absurd enough (Nat.lt_irrefl _)
  | cons last after =>
    have copied := storeAt_append content old bytes (last :: after) same
    have ended := storeAt_append (content ++ bytes) [last] [0] after rfl
    rw [append_assoc, length_append] at ended
    refine ⟨⟨content ++ bytes ++ [0] ++ after, size, buf.data_offset + bytes.length⟩, ?_, ?_, ?_, Or.inr ⟨after, ?_⟩⟩
    · unfold msIO_bufferWrite
      simp only [isSize, grown]
      rw [buffered.offset, ← append_assoc, copied]
      simp only [bind_eq_bind, bind_some, append_assoc, singleton_append] at ended ⊢
      rw [ended]
      rfl
    · rw [buffered.offset, length_append]
    · rw [← length]
      simp [same]
    · simp

theorem bufferWrites_buffered (malloc : Nat → UInt8) (writes : List (List UInt8)) :
    ∃ buf, bufferWrites malloc writes = some buf ∧ Buffered buf writes.flatten := by
  suffices run : ∀ (buf : MsIOBuffer) (content : List UInt8), Buffered buf content →
      ∃ next, writes.foldlM (fun buf bytes => msIO_bufferWrite malloc bytes buf) buf = some next ∧
        Buffered next (content ++ writes.flatten) by
    exact run emptyBuffer [] empty_buffered
  induction writes with
  | nil =>
    intro buf content buffered
    exact ⟨buf, rfl, by rwa [flatten_nil, append_nil]⟩
  | cons bytes writes ih =>
    intro buf content buffered
    obtain ⟨next, written, holds⟩ := msIO_bufferWrite_buffered malloc buffered bytes
    obtain ⟨last, run, final⟩ := ih next _ holds
    refine ⟨last, ?_, by rwa [append_assoc, ← flatten_cons] at final⟩
    rw [foldlM_cons, written]
    exact run

section Reads
variable {buf : MsIOBuffer}

theorem readByte_buffered {before after : List UInt8} {c : UInt8} (buffered : Buffered buf (before ++ c :: after)) :
    buf.readByte before.length = some c := by
  rcases buffered.data with ⟨_, empty⟩ | ⟨rest, data⟩
  · simp at empty
  · rw [MsIOBuffer.readByte, if_pos (by rw [buffered.offset]; simp), data]
    simp

theorem readByte_end {content : List UInt8} (buffered : Buffered buf content) (some_ : content ≠ []) :
    buf.readByte content.length = some 0 := by
  rcases buffered.data with ⟨_, empty⟩ | ⟨rest, data⟩
  · exact absurd empty some_
  · rw [MsIOBuffer.readByte, if_pos (by rw [buffered.offset]), data]
    simp

theorem readBytes_buffered {before bytes after : List UInt8} (buffered : Buffered buf (before ++ bytes ++ after)) {length : Int}
    (same : length = bytes.length) : buf.readBytes before.length length = some bytes := by
  subst same
  rcases buffered.data with ⟨data, empty⟩ | ⟨rest, data⟩
  · simp only [append_eq_nil_iff] at empty
    obtain ⟨⟨rfl, rfl⟩, rfl⟩ := empty
    rw [MsIOBuffer.readBytes, if_pos (by simp [buffered.offset]), data]
    rfl
  · rw [MsIOBuffer.readBytes, if_pos (by rw [buffered.offset]; simp)]
    apply readAt_of_holds
    · exact ⟨before, after ++ 0 :: rest, by rw [data]; simp, rfl⟩
    · simp

theorem moveToFront_buffered {before body : List UInt8} (buffered : Buffered buf (before ++ body)) (some_ : before ≠ []) :
    ∃ next, buf.moveToFront before.length = some next ∧ Buffered next body := by
  have rest : (buf.data_offset : Int) - before.length = body.length := by
    rw [buffered.offset, length_append]
    omega
  have length : buf.data_offset - before.length = body.length := by
    rw [buffered.offset, length_append]
    omega
  have isBody : buf.readBytes before.length (buf.data_offset - before.length) = some body := by
    have whole : Buffered buf (before ++ body ++ []) := by rwa [append_nil]
    exact readBytes_buffered whole rest
  rcases buffered.data with ⟨_, empty⟩ | ⟨after, data⟩
  · exact absurd (append_eq_nil_iff.mp empty).1 some_
  · obtain ⟨old, behind, isOld, same⟩ : ∃ old behind, before ++ body = old ++ behind ∧ old.length = body.length :=
      ⟨(before ++ body).take body.length, (before ++ body).drop body.length, (take_append_drop _ _).symm,
        length_take_of_le (by simp)⟩
    have longer := congrArg List.length isOld
    rw [length_append, length_append, same] at longer
    cases behind with
    | nil =>
      have positive := length_pos_iff.mpr some_
      rw [length_nil] at longer
      omega
    | cons last behind =>
      have moved := storeAt_append [] old body (last :: behind ++ 0 :: after) same
      have ended := storeAt_append body [last] [0] (behind ++ 0 :: after) rfl
      refine ⟨⟨body ++ [0] ++ (behind ++ 0 :: after), buf.data_len, body.length⟩, ?_, rfl, ?_, Or.inr ⟨behind ++ 0 :: after, ?_⟩⟩
      · rw [MsIOBuffer.moveToFront, isBody, data, isOld, length]
        simp only [nil_append, length_nil, append_assoc, cons_append, bind_eq_bind,
          bind_some] at moved ended ⊢
        rw [moved, bind_some, ended]
        rfl
      · rw [buffered.allocated, data, isOld]
        simp [same]
      · simp

theorem moveToFront_past {content : List UInt8} (buffered : Buffered buf content) {start : Nat} (past : content.length < start) :
    buf.moveToFront start = none := by
  rw [MsIOBuffer.moveToFront, MsIOBuffer.readBytes, if_neg (by rw [buffered.offset]; omega)]
  rfl

theorem tolower_eq_zero {c : UInt8} (zero : tolower c = 0) : c = 0 := by
  unfold tolower at zero
  split at zero
  · rename_i capital
    have low := UInt8.le_iff_toNat_le.mp capital.1
    have high := UInt8.le_iff_toNat_le.mp capital.2
    have value := congrArg UInt8.toNat zero
    simp only [UInt8.toNat_add, UInt8.toNat_ofNat] at value low high
    omega
  · exact zero

theorem startsWith_buffered {before rest word : List UInt8} (buffered : Buffered buf (before ++ rest))
    (some_ : before ++ rest ≠ []) (noZero : 0 ∉ word) :
    buf.startsWith before.length word = some (sameIgnoringCase (rest.take word.length) word) := by
  induction word generalizing before rest with
  | nil => rfl
  | cons c word ih =>
    rw [mem_cons, not_or] at noZero
    cases rest with
    | nil =>
      rw [append_nil] at buffered some_
      have differs : tolower 0 ≠ tolower c := fun same => noZero.1 (tolower_eq_zero same.symm).symm
      rw [MsIOBuffer.startsWith, readByte_end buffered some_]
      simp [differs, sameIgnoringCase]
    | cons d rest =>
      have next := @ih (before ++ [d]) rest (by simpa using buffered) (by simp) noZero.2
      rw [length_append, length_singleton] at next
      rw [MsIOBuffer.startsWith, readByte_buffered buffered, bind_eq_bind, bind_some, next]
      by_cases same : tolower d = tolower c
      · simp [same, sameIgnoringCase]
      · simp [same, sameIgnoringCase]

theorem skipToReturn_buffered {before rest : List UInt8} (buffered : Buffered buf (before ++ rest)) :
    buf.skipToReturn before.length rest.length = some (before.length + (rest.takeWhile (· ≠ 13)).length) := by
  induction rest generalizing before with
  | nil => rfl
  | cons c rest ih =>
    have next := @ih (before ++ [c]) (by simpa using buffered)
    rw [length_append, length_singleton] at next
    rw [length_cons, MsIOBuffer.skipToReturn, readByte_buffered buffered, bind_eq_bind, bind_some, next]
    by_cases isReturn : c = 13
    · simp [isReturn]
    · simp [isReturn]
      omega

theorem skipEmptyLine_buffered {content : List UInt8} (buffered : Buffered buf content) {start : Nat}
    (inside : start ≤ content.length + 1) :
    ∃ start_of_data, skipEmptyLine buf start = some start_of_data ∧ start ≤ start_of_data ∧ start_of_data ≤ content.length + 1 ∧
      (start_of_data = content.length + 1 ↔ start = content.length + 1 ∨ content.drop start = [13]) := by
  rw [skipEmptyLine, buffered.offset]
  by_cases before : start < content.length
  · obtain ⟨front, rest, rfl, rfl⟩ : ∃ front rest, content = front ++ rest ∧ front.length = start :=
      ⟨content.take start, content.drop start, (take_append_drop _ _).symm, length_take_of_le (Nat.le_of_lt before)⟩
    cases rest with
    | nil => simp at before
    | cons c rest =>
      rw [if_pos before, readByte_buffered buffered, bind_eq_bind, bind_some]
      refine ⟨_, rfl, ?_⟩
      have length : (front ++ c :: rest).length = front.length + rest.length + 1 := by
        rw [length_append, length_cons]
        omega
      rw [length, drop_left]
      by_cases isReturn : c = 13
      · rw [if_pos isReturn, isReturn]
        simp [← length_eq_zero_iff]
        omega
      · rw [if_neg isReturn]
        simp [isReturn]
        omega
  · rw [if_neg before]
    have none_ : content.drop start = [] := drop_eq_nil_of_le (Nat.le_of_not_lt before)
    exact ⟨start, rfl, Nat.le_refl _, inside, by simp [none_]⟩

end Reads

def Guarded {β : Type} (buf : MsIOBuffer) (outcome : Option (Stripped β)) : Prop :=
  ∃ result next, outcome = some (result, next) ∧ ∀ error, result = .error error → next = buf

theorem guarded_same {β : Type} {buf : MsIOBuffer} (result : Except ErrorObj β) : Guarded buf (some (result, buf)) :=
  ⟨result, buf, rfl, fun _ _ => rfl⟩

theorem not_guarded_none {β : Type} {buf : MsIOBuffer} : ¬ Guarded buf (none : Option (Stripped β)) := by
  rintro ⟨_, _, impossible, _⟩
  cases impossible

def HeaderValue (header : String) (head value : List UInt8) : Prop :=
  sameIgnoringCase head (ascii header) = true ∧ head.length = (ascii header).length ∧ 13 ∉ value

def CutType (content : List UInt8) : Prop :=
  ∃ head value, HeaderValue "Content-Type: " head value ∧
    (content = head ++ value ++ [13] ∨ ∃ c, content = head ++ value ++ [13, c, 13])

/-- Lines of content headers, with nothing behind the carriage return of the last one, or a lone one after them. -/
inductive CutLines : List UInt8 → Prop
  | lone : CutLines [13]
  | last {head value : List UInt8} (header : HeaderValue "Content-" head value) : CutLines (head ++ value ++ [13])
  | more {head value rest : List UInt8} (header : HeaderValue "Content-" head value) (c : UInt8) (others : CutLines rest) :
      CutLines (head ++ value ++ 13 :: c :: rest)

def CutHeaders (content : List UInt8) : Prop := CutLines content ∧ content ≠ [13]

section Guards
variable {buf : MsIOBuffer}

theorem guarded_data {β : Type} {content : List UInt8} (buffered : Buffered buf content) {start : Nat} (positive : 0 < start)
    (inside : start ≤ content.length + 1) (corrupt : ErrorObj) (result : β) :
    Guarded buf ((skipEmptyLine buf start).bind fun start_of_data =>
        if start_of_data = buf.data_offset then some (.error corrupt, buf)
        else (buf.moveToFront start_of_data).bind fun stripped => some (.ok result, stripped)) ↔
      ¬ (start = content.length + 1 ∨ content.drop start = [13]) := by
  obtain ⟨start_of_data, isStart, later, bound, past⟩ := skipEmptyLine_buffered buffered inside
  rw [isStart, bind_some, ← past]
  by_cases atEnd : start_of_data = buf.data_offset
  · rw [if_pos atEnd]
    refine ⟨fun _ => ?_, fun _ => guarded_same _⟩
    rw [atEnd, buffered.offset]
    omega
  · rw [if_neg atEnd]
    by_cases isPast : start_of_data = content.length + 1
    · rw [moveToFront_past buffered (by omega)]
      exact ⟨fun guarded => absurd guarded not_guarded_none, fun notPast => absurd isPast notPast⟩
    · obtain ⟨front, body, rfl, isFront⟩ : ∃ front body, content = front ++ body ∧ front.length = start_of_data :=
        ⟨content.take start_of_data, content.drop start_of_data, (take_append_drop _ _).symm,
          length_take_of_le (by omega)⟩
      have some_ : front ≠ [] := by
        rintro rfl
        rw [length_nil] at isFront
        omega
      obtain ⟨next, moved, _⟩ := moveToFront_buffered buffered some_
      rw [← isFront, moved, bind_some]
      refine ⟨fun _ => by rwa [isFront], fun _ => ⟨.ok result, next, rfl, ?_⟩⟩
      intro error impossible
      cases impossible

theorem takeWhile_of_not_mem {value : List UInt8} (absent : 13 ∉ value) (rest : List UInt8) :
    (value ++ rest).takeWhile (· ≠ 13) = value ++ rest.takeWhile (· ≠ 13) := by
  apply takeWhile_append_of_pos
  intro c member
  rw [decide_eq_true_eq]
  rintro rfl
  exact absent member

theorem firstReturn (rest : List UInt8) :
    (13 ∉ rest ∧ rest.takeWhile (· ≠ 13) = rest) ∨
      ∃ value after, rest = value ++ 13 :: after ∧ 13 ∉ value ∧ rest.takeWhile (· ≠ 13) = value := by
  by_cases member : 13 ∈ rest
  · obtain ⟨value, after, rfl, absent⟩ := eq_append_cons_of_mem member
    exact Or.inr ⟨value, after, rfl, absent, by rw [takeWhile_of_not_mem absent]; simp⟩
  · have whole := takeWhile_of_not_mem member []
    rw [append_nil, takeWhile_nil, append_nil] at whole
    exact Or.inl ⟨member, whole⟩

theorem firstReturn_inj {value after other behind : List UInt8} (absent : 13 ∉ value) (otherAbsent : 13 ∉ other)
    (same : value ++ 13 :: after = other ++ 13 :: behind) : value = other ∧ after = behind := by
  have first := congrArg (takeWhile (· ≠ 13)) same
  rw [takeWhile_of_not_mem absent, takeWhile_of_not_mem otherAbsent] at first
  simp only [ne_eq, not_true_eq_false, decide_false, Bool.false_eq_true, not_false_eq_true, takeWhile_cons_of_neg,
    append_nil] at first
  subst first
  exact ⟨rfl, tail_eq_of_cons_eq (append_cancel_left same)⟩

theorem header_inj {header : String} {head value after other otherValue behind : List UInt8}
    (isHeader : HeaderValue header head value) (isOther : HeaderValue header other otherValue)
    (same : head ++ value ++ 13 :: after = other ++ otherValue ++ 13 :: behind) :
    head = other ∧ value = otherValue ∧ after = behind := by
  rw [append_assoc, append_assoc] at same
  obtain ⟨rfl, tails⟩ := append_inj same (by rw [isHeader.2.1, isOther.2.1])
  obtain ⟨values, rest⟩ := firstReturn_inj isHeader.2.2 isOther.2.2 tails
  exact ⟨rfl, values, rest⟩

theorem contentType_guarded_iff {content : List UInt8} (buffered : Buffered buf content) :
    Guarded buf (msIO_stripStdoutBufferContentType buf) ↔ ¬ CutType content := by
  have length : (ascii "Content-Type: ").length = 14 := by simp [ascii]
  have noZero : 0 ∉ ascii "Content-Type: " := by simp [ascii]
  rw [msIO_stripStdoutBufferContentType, buffered.offset]
  by_cases short : content.length < 14
  · rw [if_pos short]
    refine ⟨fun _ => ?_, fun _ => guarded_same _⟩
    rintro ⟨head, value, header, cut⟩
    have headLength := header.2.1
    rcases cut with rfl | ⟨c, rfl⟩ <;> simp only [length_append] at short <;> omega
  · obtain ⟨head, rest, rfl, headLength⟩ : ∃ head rest, content = head ++ rest ∧ head.length = 14 :=
      ⟨content.take 14, content.drop 14, (take_append_drop _ _).symm, length_take_of_le (by omega)⟩
    have starts := @startsWith_buffered buf [] (head ++ rest) (ascii "Content-Type: ") buffered
      (by intro empty; rw [nil_append] at empty; rw [empty] at short; simp at short) noZero
    rw [length_nil, length, take_left' headLength] at starts
    rw [if_neg short, starts, bind_eq_bind, bind_some]
    cases isHeader : sameIgnoringCase head (ascii "Content-Type: ") with
    | false =>
      refine ⟨fun _ => ?_, fun _ => guarded_same _⟩
      rintro ⟨other, value, header, cut⟩
      have same : head = other := by
        rcases cut with cut | ⟨c, cut⟩ <;> rw [append_assoc] at cut <;>
          exact (append_inj cut (by rw [headLength, header.2.1, length])).1
      rw [same, header.1] at isHeader
      cases isHeader
    | true =>
      have skipped := skipToReturn_buffered buffered
      rw [headLength] at skipped
      have count : (head ++ rest).length - 14 = rest.length := by
        rw [length_append, headLength, Nat.add_sub_cancel_left]
      simp only [Bool.not_true, Bool.false_eq_true, if_false]
      rw [count, skipped, bind_eq_bind, bind_some]
      rcases firstReturn rest with ⟨absent, whole⟩ | ⟨value, after, rfl, absent, isValue⟩
      · rw [whole, if_pos (by rw [length_append, headLength])]
        refine ⟨fun _ => ?_, fun _ => guarded_same _⟩
        rintro ⟨other, value, header, cut⟩
        have inContent : 13 ∈ rest := by
          rcases cut with cut | ⟨c, cut⟩ <;> rw [append_assoc] at cut <;>
            rw [(append_inj cut (by rw [headLength, header.2.1, length])).2] <;> simp
        exact absent inContent
      · have isContentType : buf.readBytes 14 (((14 + value.length : Nat) : Int) - 14) = some value := by
          rw [← headLength]
          have whole : Buffered buf (head ++ value ++ 13 :: after) := by rwa [append_assoc]
          apply readBytes_buffered whole
          omega
        have size : (head ++ (value ++ 13 :: after)).length = 14 + value.length + after.length + 1 := by
          simp [headLength]
          omega
        have behind : (head ++ (value ++ 13 :: after)).drop (14 + value.length + 2) = after.drop 1 := by
          have regroup : head ++ (value ++ 13 :: after) = head ++ value ++ [13] ++ after := by simp
          have place : 14 + value.length + 2 = (head ++ value ++ [13]).length + 1 := by
            simp [headLength]
            omega
          rw [regroup, place, drop_length_add_append]
        rw [isValue, size, if_neg (by omega)]
        simp only [isContentType, bind_eq_bind, bind_some]
        rw [← size, ← buffered.offset]
        refine (guarded_data buffered (Nat.succ_pos _) (by omega) _ _).trans (not_congr ?_)
        rw [size, behind]
        constructor
        · rintro (none_ | lone)
          · have empty : after = [] := length_eq_zero_iff.mp (by omega)
            exact ⟨head, value, ⟨isHeader, by rw [headLength, length], absent⟩, Or.inl (by rw [empty, append_assoc])⟩
          · cases after with
            | nil => cases lone
            | cons c after =>
              rw [drop_succ_cons, drop_zero] at lone
              exact ⟨head, value, ⟨isHeader, by rw [headLength, length], absent⟩, Or.inr ⟨c, by rw [lone, append_assoc]⟩⟩
        · rintro ⟨other, otherValue, header, cut⟩
          have isCut : HeaderValue "Content-Type: " head value := ⟨isHeader, by rw [headLength, length], absent⟩
          rw [← append_assoc] at cut
          rcases cut with cut | ⟨c, cut⟩
          · obtain ⟨_, _, rfl⟩ := header_inj isCut header cut
            exact Or.inl rfl
          · obtain ⟨_, _, rfl⟩ := header_inj isCut header cut
            exact Or.inr rfl

theorem cutLines_cases {rest : List UInt8} (cut : CutLines rest) :
    rest = [13] ∨ ∃ head value after, HeaderValue "Content-" head value ∧ rest = head ++ value ++ 13 :: after ∧
      (after = [] ∨ ∃ c others, after = c :: others ∧ CutLines others) := by
  cases cut with
  | lone => exact Or.inl rfl
  | last header => exact Or.inr ⟨_, _, [], header, rfl, Or.inl rfl⟩
  | more header c others => exact Or.inr ⟨_, _, _, header, rfl, Or.inr ⟨c, _, rfl, others⟩⟩

theorem cutLines_header_iff {head value after : List UInt8} (header : HeaderValue "Content-" head value) :
    CutLines (head ++ value ++ 13 :: after) ↔ after = [] ∨ ∃ c others, after = c :: others ∧ CutLines others := by
  constructor
  · intro cut
    rcases cutLines_cases cut with lone | ⟨other, otherValue, behind, isOther, same, cases_⟩
    · have long := congrArg List.length lone
      have length := header.2.1
      simp [ascii] at long length
      omega
    · obtain ⟨_, _, rfl⟩ := header_inj header isOther same
      exact cases_
  · rintro (rfl | ⟨c, others, rfl, cut⟩)
    · exact CutLines.last header
    · exact CutLines.more header c cut

theorem cutLines_plain {rest : List UInt8} (noHeader : sameIgnoringCase (rest.take 8) (ascii "Content-") = false) :
    CutLines rest ↔ rest = [13] := by
  constructor
  · intro cut
    rcases cutLines_cases cut with lone | ⟨head, value, after, header, rfl, _⟩
    · exact lone
    · have length := header.2.1
      rw [append_assoc, take_left' (by rw [length]; simp [ascii]), header.1] at noHeader
      cases noHeader
  · rintro rfl
    exact CutLines.lone

theorem skipContentHeaders_buffered {before rest : List UInt8} (buffered : Buffered buf (before ++ rest)) {fuel : Nat}
    (enough : rest.length < fuel) (some_ : before ++ rest ≠ []) :
    ∃ result, skipContentHeaders buf before.length fuel = some result ∧
      (∀ start, result = some start → before.length ≤ start ∧ start ≤ (before ++ rest).length + 1 ∧
        (sameIgnoringCase (rest.take 8) (ascii "Content-") = true → before.length < start)) ∧
      ((∃ start, result = some start ∧ (start = (before ++ rest).length + 1 ∨ (before ++ rest).drop start = [13])) ↔
        CutLines rest) := by
  have length : (ascii "Content-").length = 8 := by simp [ascii]
  have noZero : 0 ∉ ascii "Content-" := by simp [ascii]
  induction fuel generalizing before rest with
  | zero => cases enough
  | succ fuel ih =>
    rw [skipContentHeaders, buffered.offset]
    have stays : (∃ start, some before.length = some start ∧
        (start = (before ++ rest).length + 1 ∨ (before ++ rest).drop start = [13])) ↔ rest = [13] := by
      simp only [Option.some.injEq, exists_eq_left', drop_left, or_iff_right_iff_imp]
      intro past
      rw [length_append] at past
      omega
    by_cases empty : rest = []
    · subst empty
      rw [if_neg (by simp)]
      refine ⟨some before.length, rfl, fun start same => ?_, stays.trans ?_⟩
      · cases same
        exact ⟨Nat.le_refl _, by simp, fun isHeader => by simp [sameIgnoringCase, ascii] at isHeader⟩
      · exact (cutLines_plain (by simp [sameIgnoringCase, ascii])).symm
    · have longer : (before ++ rest).length > before.length := by
        have positive := length_pos_iff.mpr empty
        rw [length_append]
        omega
      rw [if_pos longer, startsWith_buffered buffered some_ noZero, length, bind_eq_bind, bind_some]
      cases isHeader : sameIgnoringCase (rest.take 8) (ascii "Content-") with
      | false =>
        refine ⟨some before.length, rfl, fun start same => ?_, stays.trans (cutLines_plain isHeader).symm⟩
        cases same
        exact ⟨Nat.le_refl _, by omega, fun impossible => by cases impossible⟩
      | true =>
        obtain ⟨head, tail, rfl, isHead⟩ : ∃ head tail, rest = head ++ tail ∧ rest.take 8 = head :=
          ⟨rest.take 8, rest.drop 8, (take_append_drop _ _).symm, rfl⟩
        rw [isHead] at isHeader
        have headLength : head.length = 8 := by
          have same := congrArg List.length (sameIgnoringCase_iff.mp isHeader)
          rwa [length_map, length_map, length] at same
        have place : before.length + 8 = (before ++ head).length := by rw [length_append, headLength]
        have count : (before ++ (head ++ tail)).length - (before.length + 8) = tail.length := by
          rw [length_append, length_append]
          omega
        have skipped := @skipToReturn_buffered buf (before ++ head) tail (by rwa [append_assoc])
        simp only [Bool.not_true, Bool.false_eq_true, if_false]
        rw [count, place, skipped, bind_eq_bind, bind_some]
        rcases firstReturn tail with ⟨absent, whole⟩ | ⟨value, after, rfl, absent, isValue⟩
        · rw [whole, if_pos (by simp; omega)]
          refine ⟨none, rfl, (fun start same => by cases same), ?_⟩
          constructor
          · rintro ⟨start, impossible, _⟩
            cases impossible
          · intro cut
            rcases cutLines_cases cut with lone | ⟨other, value, after, header, same, _⟩
            · have long := congrArg List.length lone
              simp [headLength] at long
              omega
            · rw [append_assoc] at same
              have tails := (append_inj same (by rw [headLength, header.2.1, length])).2
              exact absurd (by rw [tails]; simp) absent
        · have header : HeaderValue "Content-" head value := ⟨isHeader, by rw [headLength, length], absent⟩
          have cutIff := @cutLines_header_iff head value after header
          rw [append_assoc] at cutIff
          have size : (before ++ (head ++ (value ++ 13 :: after))).length =
              before.length + 8 + value.length + after.length + 1 := by
            simp [headLength]
            omega
          rw [isValue, if_neg (by rw [size, ← place]; omega), cutIff]
          cases after with
          | nil =>
            obtain ⟨fuel, rfl⟩ : ∃ more, fuel = more + 1 := ⟨fuel - 1, by simp [headLength] at enough; omega⟩
            have past : (before ++ head).length + value.length + 2 = (before ++ (head ++ (value ++ [13]))).length + 1 := by
              rw [size, ← place]
              rfl
            rw [past, skipContentHeaders, buffered.offset, if_neg (by omega)]
            refine ⟨_, rfl, fun start same => ?_, ?_⟩
            · cases same
              exact ⟨by omega, by omega, fun _ => by omega⟩
            · simp
          | cons c others =>
            have step : (before ++ head).length + value.length + 2 = (before ++ head ++ value ++ [13, c]).length := by
              simp
              omega
            have regroup : before ++ (head ++ (value ++ 13 :: c :: others)) = before ++ head ++ value ++ [13, c] ++ others := by
              simp
            rw [regroup] at buffered some_ ⊢
            obtain ⟨result, run, bounds, cut⟩ := ih buffered (by simp [headLength] at enough; omega) some_
            rw [step]
            refine ⟨result, run, fun start same => ?_, ?_⟩
            · obtain ⟨low, high, _⟩ := bounds start same
              rw [← step, length_append] at low
              exact ⟨by omega, high, fun _ => by omega⟩
            · rw [cut]
              simp

theorem contentHeaders_guarded_iff {content : List UInt8} (buffered : Buffered buf content) :
    Guarded buf (msIO_stripStdoutBufferContentHeaders buf) ↔ ¬ CutHeaders content := by
  have length : (ascii "Content-").length = 8 := by simp [ascii]
  have noZero : 0 ∉ ascii "Content-" := by simp [ascii]
  have notLines (noHeader : sameIgnoringCase (content.take 8) (ascii "Content-") = false) : ¬ CutHeaders content :=
    fun cut => cut.2 ((cutLines_plain noHeader).mp cut.1)
  rw [msIO_stripStdoutBufferContentHeaders, buffered.offset]
  by_cases short : content.length < 8
  · rw [if_pos short]
    refine ⟨fun _ => notLines ?_, fun _ => guarded_same _⟩
    apply Bool.eq_false_iff.mpr
    intro same
    have lengths := congrArg List.length (sameIgnoringCase_iff.mp same)
    rw [length_map, length_map, length, length_take] at lengths
    omega
  · have some_ : content ≠ [] := by
      rintro rfl
      exact short (by decide)
    have starts := @startsWith_buffered buf [] content (ascii "Content-") buffered some_ noZero
    rw [length_nil, length] at starts
    rw [if_neg short, starts, bind_eq_bind, bind_some]
    cases isHeader : sameIgnoringCase (content.take 8) (ascii "Content-") with
    | false => exact ⟨fun _ => notLines isHeader, fun _ => guarded_same _⟩
    | true =>
      obtain ⟨result, run, bounds, cut⟩ :=
        @skipContentHeaders_buffered buf [] content buffered (content.length + 1) (Nat.lt_succ_self _) some_
      rw [length_nil] at run
      rw [run, bind_eq_bind, bind_some]
      have notLone : content ≠ [13] := by
        rintro rfl
        exact short (by decide)
      rw [CutHeaders, and_iff_left notLone, ← cut]
      cases result with
      | none =>
        refine ⟨fun _ => ?_, fun _ => guarded_same _⟩
        rintro ⟨start, impossible, _⟩
        cases impossible
      | some start =>
        obtain ⟨_, inside, later⟩ := bounds start rfl
        have data := @guarded_data buf Unit content buffered start (later isHeader) inside
          ⟨.MS_MISCERR, "Corrupt Content-* header.", "msIO_stripStdoutBufferContentHeaders"⟩ ()
        rw [buffered.offset] at data
        refine data.trans ?_
        simp


end Guards

end MapServer
