import MapServer.Io.HeaderStrip

namespace MapServer
open List Option

structure MimeHeader where
  name : CString
  value : CString

def MimeHeader.line (header : MimeHeader) : List UInt8 := header.name ++ [58, 32] ++ header.value ++ [13, 10]

structure MimeHeader.WellFormed (header : MimeHeader) : Prop where
  nameColon : 58 ∉ header.name
  nameReturn : 13 ∉ header.name
  nameZero : 0 ∉ header.name
  valueReturn : 13 ∉ header.value
  valueZero : 0 ∉ header.value

structure IsResponse (headers : List MimeHeader) (body content : List UInt8) : Prop where
  someHeaders : headers ≠ []
  someBody : body ≠ []
  wellFormed : ∀ header ∈ headers, header.WellFormed
  content : content = headers.flatMap MimeHeader.line ++ [13, 10] ++ body

def HeadersStripped (buf : MsIOBuffer) (headers : List MimeHeader) (body : List UInt8) : Prop :=
  ∃ hashTable next, msIO_getAndStripStdoutBufferMimeHeaders buf = some (.ok hashTable, next) ∧ Buffered next body ∧
    ∀ header ∈ headers, msLookupHashTable (some header.name) hashTable = some header.value

section Column
variable {buf : MsIOBuffer}

/-- Where the inner loop stops: at a line end with the last colon of the line in front of it, if it found one. -/
theorem findColumn_found {before rest : List UInt8} (buffered : Buffered buf (before ++ rest)) (pos_of_column : Option Nat) :
    ∃ current_pos column, findColumn buf before.length pos_of_column rest.length = some (current_pos, column) ∧
      current_pos ≤ (before ++ rest).length ∧ ∀ q, column = some q → current_pos < (before ++ rest).length →
        ∃ passed more, rest = passed ++ 13 :: 10 :: more ∧ current_pos = before.length + passed.length ∧ 13 ∉ passed ∧
          ((∃ name value, passed = name ++ 58 :: 32 :: value ∧ 58 ∉ value ∧ q = before.length + name.length) ∨
            (pos_of_column = some q ∧ 58 ∉ passed)) := by
  induction rest generalizing before pos_of_column with
  | nil => exact ⟨before.length, pos_of_column, rfl, by simp, fun q _ inside => by simp at inside⟩
  | cons c rest ih =>
    have next (column : Option Nat) := @ih (before ++ [c]) (by simpa using buffered) column
    rw [length_append, length_singleton, append_assoc, singleton_append] at next
    rw [length_cons, findColumn, readByte_buffered buffered, buffered.offset, bind_eq_bind, bind_some]
    have atEnd : before.length + 1 = (before ++ c :: rest).length ↔ rest = [] := by
      rw [length_append, length_cons, ← length_eq_zero_iff]
      omega
    have following (d : UInt8) (others : List UInt8) (same : rest = d :: others) :
        buf.readByte (before.length + 1) = some d := by
      subst same
      have read := @readByte_buffered buf (before ++ [c]) others d (by simpa using buffered)
      rwa [length_append] at read
    by_cases isReturn : c = 13
    · subst c
      rw [if_pos rfl]
      cases rest with
      | nil =>
        rw [if_pos (atEnd.mpr rfl)]
        exact ⟨_, none, rfl, by simp, fun q impossible => by cases impossible⟩
      | cons d others =>
        rw [if_neg (by rw [atEnd]; simp), following d others rfl, bind_some]
        refine ⟨_, _, rfl, by simp, ?_⟩
        intro q same inside
        split at same
        · rename_i lineEnd
          exact ⟨[], others, by rw [lineEnd]; rfl, by simp, by simp, Or.inr ⟨same, by simp⟩⟩
        · cases same
    · rw [if_neg isReturn]
      by_cases isColon : c = 58
      · subst c
        rw [if_pos rfl]
        cases rest with
        | nil =>
          rw [if_pos (atEnd.mpr rfl)]
          exact ⟨_, none, rfl, by simp, fun q impossible => by cases impossible⟩
        | cons d others =>
          rw [if_neg (by rw [atEnd]; simp), following d others rfl, bind_some]
          by_cases isBlank : d = 32
          · subst d
            rw [if_pos rfl]
            obtain ⟨current_pos, column, run, bound, found⟩ := next (some before.length)
            refine ⟨current_pos, column, run, bound, ?_⟩
            intro q same inside
            obtain ⟨passed, more, split, place, absent, inner | ⟨outer, noColon⟩⟩ := found q same inside
            · obtain ⟨name, value, rfl, noColon, isQ⟩ := inner
              refine ⟨58 :: (name ++ 58 :: 32 :: value), more, by rw [split]; rfl, by rw [place, length_cons]; omega, ?_,
                Or.inl ⟨58 :: name, value, rfl, noColon, by rw [isQ, length_cons]; omega⟩⟩
              simpa using absent
            · cases passed with
              | nil => cases head_eq_of_cons_eq split
              | cons first value =>
                cases head_eq_of_cons_eq split
                rw [mem_cons, not_or] at absent noColon
                refine ⟨58 :: 32 :: value, more, by rw [split]; rfl, by rw [place]; simp; omega, ?_,
                  Or.inl ⟨[], value, rfl, noColon.2, by simpa using outer.symm⟩⟩
                simpa using absent.2
          · rw [if_neg isBlank]
            exact ⟨_, none, rfl, by simp, fun q impossible => by cases impossible⟩
      · rw [if_neg isColon]
        obtain ⟨current_pos, column, run, bound, found⟩ := next pos_of_column
        refine ⟨current_pos, column, run, bound, ?_⟩
        intro q same inside
        obtain ⟨passed, more, rfl, place, absent, inner | ⟨outer, noColon⟩⟩ := found q same inside
        · obtain ⟨name, value, rfl, noColon, isQ⟩ := inner
          refine ⟨c :: (name ++ 58 :: 32 :: value), more, rfl, by rw [place, length_cons]; omega, ?_,
            Or.inl ⟨c :: name, value, rfl, noColon, by rw [isQ, length_cons]; omega⟩⟩
          exact fun member => (mem_cons.mp member).elim (fun same => isReturn same.symm) absent
        · refine ⟨c :: passed, more, rfl, by rw [place, length_cons]; omega, ?_, Or.inr ⟨outer, ?_⟩⟩
          · exact fun member => (mem_cons.mp member).elim (fun same => isReturn same.symm) absent
          · exact fun member => (mem_cons.mp member).elim (fun same => isColon same.symm) noColon

theorem findColumn_plain {before word rest : List UInt8} (buffered : Buffered buf (before ++ word ++ rest)) (noReturn : 13 ∉ word)
    (noColon : 58 ∉ word) (pos_of_column : Option Nat) :
    findColumn buf before.length pos_of_column (word ++ rest).length =
      findColumn buf (before ++ word).length pos_of_column rest.length := by
  induction word generalizing before with
  | nil => simp
  | cons c word ih =>
    rw [mem_cons, not_or] at noReturn noColon
    have next := @ih (before ++ [c]) (by simpa using buffered) noReturn.2 noColon.2
    rw [length_append, length_singleton] at next
    rw [append_assoc, cons_append] at buffered
    rw [cons_append, length_cons, findColumn, readByte_buffered buffered, bind_eq_bind, bind_some,
      if_neg (Ne.symm noReturn.1), if_neg (Ne.symm noColon.1), next]
    simp

theorem readByte_next {before after : List UInt8} {c d : UInt8} (buffered : Buffered buf (before ++ c :: d :: after)) :
    buf.readByte (before.length + 1) = some d := by
  have read := @readByte_buffered buf (before ++ [c]) after d (by simpa using buffered)
  rwa [length_append] at read

theorem findColumn_colon {before rest : List UInt8} (buffered : Buffered buf (before ++ 58 :: 32 :: rest))
    (pos_of_column : Option Nat) :
    findColumn buf before.length pos_of_column (58 :: 32 :: rest).length =
      findColumn buf (before.length + 1) (some before.length) (32 :: rest).length := by
  rw [length_cons, findColumn, readByte_buffered buffered, buffered.offset, bind_eq_bind, bind_some,
    if_neg (by decide), if_pos rfl, if_neg (by simp), readByte_next buffered, bind_some, if_pos rfl]

theorem findColumn_lineEnd {before rest : List UInt8} (buffered : Buffered buf (before ++ 13 :: 10 :: rest))
    (pos_of_column : Option Nat) :
    findColumn buf before.length pos_of_column (13 :: 10 :: rest).length = some (before.length, pos_of_column) := by
  rw [length_cons, findColumn, readByte_buffered buffered, buffered.offset, bind_eq_bind, bind_some,
    if_pos rfl, if_neg (by simp), readByte_next buffered, bind_some, if_pos rfl]

theorem findColumn_line {before rest : List UInt8} {header : MimeHeader} (wellFormed : header.WellFormed)
    (noColon : 58 ∉ header.value) (buffered : Buffered buf (before ++ (header.line ++ rest))) :
    findColumn buf before.length none (header.line ++ rest).length =
      some (before.length + header.name.length + 2 + header.value.length, some (before.length + header.name.length)) := by
  have line : header.line ++ rest = header.name ++ 58 :: (32 :: header.value ++ 13 :: 10 :: rest) := by
    simp [MimeHeader.line]
  rw [line] at buffered ⊢
  have name := @findColumn_plain buf before header.name (58 :: (32 :: header.value ++ 13 :: 10 :: rest))
    (by rwa [append_assoc]) wellFormed.nameReturn wellFormed.nameColon none
  have colon := @findColumn_colon buf (before ++ header.name) (header.value ++ 13 :: 10 :: rest)
    (by rw [append_assoc]; exact buffered) none
  have value := @findColumn_plain buf (before ++ header.name ++ [58]) (32 :: header.value) (13 :: 10 :: rest)
    (by simpa using buffered) (by simpa using wellFormed.valueReturn) (by simpa using noColon)
    (some (before ++ header.name).length)
  have lineEnd := @findColumn_lineEnd buf (before ++ header.name ++ [58] ++ 32 :: header.value) rest
    (by simpa using buffered) (some (before ++ header.name).length)
  rw [@List.length_append _ (before ++ header.name), length_singleton] at value
  rw [name, cons_append, colon]
  rw [cons_append] at value
  rw [value, lineEnd]
  simp
  omega

end Column

def PlainValues (hashTable : HashTableObj) : Prop :=
  TableInvariant hashTable ∧ ∀ key value, msLookupHashTable (some key) hashTable = some value → 58 ∉ value

theorem PlainValues.insert {hashTable : HashTableObj} (plain : PlainValues hashTable) (key : CString) {value : CString}
    (noColon : 58 ∉ value) : PlainValues (msInsertHashTable (some key) (some value) hashTable).1 := by
  obtain ⟨invariant, values⟩ := insert_spec plain.1 key value
  refine ⟨invariant, ?_⟩
  intro other found isFound
  rw [values] at isFound
  split at isFound
  · cases isFound
    exact noColon
  · exact plain.2 other found isFound

theorem create_plainValues : PlainValues msCreateHashTable := by
  refine ⟨create_invariant, ?_⟩
  intro key value found
  cases found

section Outer
variable {buf : MsIOBuffer}

theorem stripHeaders_step {before name value rest : List UInt8}
    (buffered : Buffered buf (before ++ (name ++ 58 :: 32 :: value ++ 13 :: 10 :: rest)))
    {fuel : Nat} {hashTable : HashTableObj}
    (found : findColumn buf before.length none (name ++ 58 :: 32 :: value ++ 13 :: 10 :: rest).length =
      some (before.length + name.length + 2 + value.length, some (before.length + name.length))) :
    (∃ body, rest = 13 :: 10 :: body ∧ stripHeaders buf hashTable before.length (fuel + 1) =
        (buf.moveToFront (before ++ name ++ [58, 32] ++ value ++ [13, 10, 13, 10]).length).bind fun stripped =>
          some (.ok (msInsertHashTable (some (terminated name)) (some (terminated value)) hashTable).1, stripped)) ∨
      (∃ c others, rest = c :: others ∧ c ≠ 13 ∧ stripHeaders buf hashTable before.length (fuel + 1) =
        stripHeaders buf (msInsertHashTable (some (terminated name)) (some (terminated value)) hashTable).1
          (before ++ name ++ [58, 32] ++ value ++ [13, 10]).length fuel) ∨
      ((rest = [] ∨ ∃ others, rest = 13 :: others ∧ others.head? ≠ some 10) ∧
        stripHeaders buf hashTable before.length (fuel + 1) = some (corruptMimeHeaders buf)) := by
  have size : (before ++ (name ++ 58 :: 32 :: value ++ 13 :: 10 :: rest)).length =
      before.length + name.length + 2 + value.length + 2 + rest.length := by
    simp
    omega
  have count : (before ++ (name ++ 58 :: 32 :: value ++ 13 :: 10 :: rest)).length - before.length =
      (name ++ 58 :: 32 :: value ++ 13 :: 10 :: rest).length := by
    rw [length_append, Nat.add_sub_cancel_left]
  have isName : buf.readBytes before.length ((before.length + name.length : Nat) - before.length) = some name := by
    have whole : Buffered buf (before ++ name ++ (58 :: 32 :: value ++ 13 :: 10 :: rest)) := by simpa using buffered
    apply readBytes_buffered whole
    omega
  have place : before.length + name.length + 2 = (before ++ name ++ [58, 32]).length := by
    simp
    omega
  have isValue : buf.readBytes (before.length + name.length + 2)
      ((before.length + name.length + 2 + value.length : Nat) - ((before.length + name.length : Nat) + 2)) = some value := by
    have whole : Buffered buf (before ++ name ++ [58, 32] ++ value ++ (13 :: 10 :: rest)) := by simpa using buffered
    rw [place]
    apply readBytes_buffered whole
    omega
  have next : before.length + name.length + 2 + value.length + 2 = (before ++ name ++ [58, 32] ++ value ++ [13, 10]).length := by
    simp
    omega
  have behind : Buffered buf (before ++ name ++ [58, 32] ++ value ++ [13, 10] ++ rest) := by simpa using buffered
  rw [stripHeaders, buffered.offset, count, found, bind_eq_bind, bind_some]
  dsimp only
  rw [if_neg (by omega), isName, bind_eq_bind, bind_some, isValue, bind_eq_bind, bind_some, size]
  cases rest with
  | nil => exact Or.inr (Or.inr ⟨Or.inl rfl, by simp⟩)
  | cons c rest =>
    rw [if_neg (by simp), next, readByte_buffered behind, bind_eq_bind, bind_some]
    by_cases isReturn : c = 13
    · subst c
      rw [if_pos rfl]
      cases rest with
      | nil => exact Or.inr (Or.inr ⟨Or.inr ⟨[], rfl, by simp⟩, by rw [← next]; simp⟩)
      | cons d rest =>
        rw [if_neg (by rw [← next]; simp), readByte_next behind, bind_some]
        by_cases isNewline : d = 10
        · subst d
          refine Or.inl ⟨rest, rfl, ?_⟩
          have past : (before ++ name ++ [58, 32] ++ value ++ [13, 10]).length + 2 =
              (before ++ name ++ [58, 32] ++ value ++ [13, 10, 13, 10]).length := by
            simp
            omega
          rw [if_neg (by simp), past]
        · exact Or.inr (Or.inr ⟨Or.inr ⟨d :: rest, rfl, by simpa using isNewline⟩, by rw [if_pos isNewline]⟩)
    · rw [if_neg isReturn]
      exact Or.inr (Or.inl ⟨c, rest, rfl, isReturn, rfl⟩)

theorem stripHeaders_guarded {before rest : List UInt8} (buffered : Buffered buf (before ++ rest)) {fuel : Nat}
    (enough : rest.length < fuel) {hashTable : HashTableObj} (plain : PlainValues hashTable) :
    ∃ result next, stripHeaders buf hashTable before.length fuel = some (result, next) ∧
      (∀ error, result = .error error → next = buf) ∧ ∀ table, result = .ok table → PlainValues table := by
  induction fuel generalizing before rest hashTable with
  | zero => cases enough
  | succ fuel ih =>
    have refused : ∃ result next, some (corruptMimeHeaders buf) = some (result, next) ∧
        (∀ error, result = .error error → next = buf) ∧ ∀ table, result = .ok table → PlainValues table :=
      ⟨_, buf, rfl, fun _ _ => rfl, fun table impossible => by cases impossible⟩
    obtain ⟨current_pos, column, run, bound, found⟩ := findColumn_found buffered none
    have count : (before ++ rest).length - before.length = rest.length := by
      rw [length_append, Nat.add_sub_cancel_left]
    cases column with
    | none =>
      rw [stripHeaders, buffered.offset, count, run]
      exact refused
    | some q =>
      by_cases inside : current_pos < (before ++ rest).length
      · obtain ⟨passed, more, rfl, place, _, inner | ⟨impossible, _⟩⟩ := found q rfl inside
        · obtain ⟨name, value, rfl, noColon, rfl⟩ := inner
          have noColons : 58 ∉ terminated value := fun member => noColon (takeWhile_sublist _ |>.subset member)
          have kept := plain.insert (terminated name) noColons
          have isFound : findColumn buf before.length none (name ++ 58 :: 32 :: value ++ 13 :: 10 :: more).length =
              some (before.length + name.length + 2 + value.length, some (before.length + name.length)) := by
            rw [run, place]
            simp
            omega
          rcases stripHeaders_step buffered isFound with ⟨body, rfl, step⟩ | ⟨c, others, rfl, _, step⟩ | ⟨_, step⟩
          · have whole : Buffered buf (before ++ name ++ [58, 32] ++ value ++ [13, 10, 13, 10] ++ body) := by
              simpa using buffered
            obtain ⟨next, moved, _⟩ := moveToFront_buffered whole (by simp)
            rw [step, moved]
            refine ⟨_, next, rfl, (fun error impossible => by cases impossible), fun table same => ?_⟩
            cases same
            exact kept
          · rw [step]
            apply ih (by simpa using buffered) _ kept
            simp at enough
            simp
            omega
          · rw [step]
            exact refused
        · cases impossible
      · rw [stripHeaders, buffered.offset, count, run, bind_eq_bind, bind_some]
        dsimp only
        rw [if_pos (Nat.le_antisymm bound (Nat.le_of_not_lt inside))]
        exact refused

def storeHeaders (headers : List MimeHeader) (hashTable : HashTableObj) : HashTableObj :=
  headers.foldl (fun table header => (msInsertHashTable (some header.name) (some header.value) table).1) hashTable

theorem terminated_of_not_mem {bytes : List UInt8} (noZero : 0 ∉ bytes) : terminated bytes = bytes := by
  have whole := @List.takeWhile_append_of_pos _ (· ≠ (0 : UInt8)) bytes [] (by
    intro c member
    rw [decide_eq_true_eq]
    intro isZero
    exact noZero (isZero ▸ member))
  rwa [append_nil, takeWhile_nil, append_nil] at whole

theorem line_head {header : MimeHeader} (wellFormed : header.WellFormed) (rest : List UInt8) :
    ∃ c others, header.line ++ rest = c :: others ∧ c ≠ 13 := by
  cases name : header.name with
  | nil =>
    refine ⟨58, 32 :: header.value ++ [13, 10] ++ rest, ?_, by decide⟩
    simp [MimeHeader.line, name]
  | cons c others =>
    refine ⟨c, others ++ [58, 32] ++ header.value ++ [13, 10] ++ rest, ?_, ?_⟩
    · simp [MimeHeader.line, name]
    · intro isReturn
      exact wellFormed.nameReturn (by rw [name, isReturn]; exact mem_cons_self)

theorem stripHeaders_response {before body : List UInt8} {headers : List MimeHeader} (someHeaders : headers ≠ [])
    (wellFormed : ∀ header ∈ headers, header.WellFormed) (noColon : ∀ header ∈ headers, 58 ∉ header.value)
    (buffered : Buffered buf (before ++ (headers.flatMap MimeHeader.line ++ [13, 10] ++ body))) {fuel : Nat}
    (enough : headers.length ≤ fuel) (hashTable : HashTableObj) :
    ∃ next, stripHeaders buf hashTable before.length fuel = some (.ok (storeHeaders headers hashTable), next) ∧
      Buffered next body := by
  induction headers generalizing before fuel hashTable with
  | nil => exact absurd rfl someHeaders
  | cons header headers ih =>
    rw [forall_mem_cons] at wellFormed noColon
    obtain ⟨fuel, rfl⟩ : ∃ more, fuel = more + 1 := ⟨fuel - 1, by rw [length_cons] at enough; omega⟩
    have name := terminated_of_not_mem wellFormed.1.nameZero
    have value := terminated_of_not_mem wellFormed.1.valueZero
    have split : (header :: headers).flatMap MimeHeader.line ++ [13, 10] ++ body =
        header.line ++ (headers.flatMap MimeHeader.line ++ [13, 10] ++ body) := by
      simp
    rw [split] at buffered
    have run := findColumn_line wellFormed.1 noColon.1 buffered
    have line : header.line ++ (headers.flatMap MimeHeader.line ++ [13, 10] ++ body) =
        header.name ++ 58 :: 32 :: header.value ++ 13 :: 10 :: (headers.flatMap MimeHeader.line ++ [13, 10] ++ body) := by
      simp [MimeHeader.line]
    rw [line] at run buffered
    rcases stripHeaders_step buffered run with ⟨rest, isEnd, step⟩ | ⟨c, others, isMore, notReturn, step⟩ | ⟨isBad, _⟩
    · -- an empty line, so there are no more headers: a name does not begin with a carriage return
      cases headers with
      | nil =>
        rw [flatMap_nil, nil_append] at isEnd
        have whole : Buffered buf (before ++ header.name ++ [58, 32] ++ header.value ++ [13, 10, 13, 10] ++ body) := by
          simpa using buffered
        obtain ⟨next, moved, holds⟩ := moveToFront_buffered whole (by simp)
        refine ⟨next, ?_, holds⟩
        rw [step, moved, name, value]
        rfl
      | cons second headers =>
        obtain ⟨c, others, isLine, notReturn⟩ := line_head (wellFormed.2 second mem_cons_self)
          (headers.flatMap MimeHeader.line ++ [13, 10] ++ body)
        rw [flatMap_cons, append_assoc, append_assoc, ← @List.append_assoc _ _ [13, 10], isLine] at isEnd
        exact absurd (head_eq_of_cons_eq isEnd) notReturn
    · cases headers with
      | nil =>
        rw [flatMap_nil, nil_append] at isMore
        cases isMore
        exact absurd rfl notReturn
      | cons second headers =>
        rw [step, name, value]
        apply ih (by simp) wellFormed.2 noColon.2 _ (by rw [length_cons] at enough; omega)
        simpa using buffered
    · cases headers with
      | nil => simp at isBad
      | cons second headers =>
        obtain ⟨c, others, isLine, notReturn⟩ := line_head (wellFormed.2 second mem_cons_self)
          (headers.flatMap MimeHeader.line ++ [13, 10] ++ body)
        rw [flatMap_cons, append_assoc, append_assoc, ← @List.append_assoc _ _ [13, 10], isLine] at isBad
        rcases isBad with impossible | ⟨_, isReturn, _⟩
        · cases impossible
        · exact absurd (head_eq_of_cons_eq isReturn) notReturn

end Outer

theorem storeHeaders_lookup (headers : List MimeHeader) {hashTable : HashTableObj} (invariant : TableInvariant hashTable)
    {key value : CString} (agree : ∀ header ∈ headers, folded header.name = folded key → header.value = value)
    (known : (∃ header ∈ headers, folded header.name = folded key) ∨ msLookupHashTable (some key) hashTable = some value) :
    msLookupHashTable (some key) (storeHeaders headers hashTable) = some value := by
  induction headers generalizing hashTable with
  | nil =>
    rcases known with ⟨header, member, _⟩ | found
    · cases member
    · exact found
  | cons header headers ih =>
    rw [forall_mem_cons] at agree
    obtain ⟨inserted, values⟩ := insert_spec invariant header.name header.value
    apply ih inserted agree.2
    rw [values]
    by_cases isName : folded key = folded header.name
    · rw [if_pos isName, agree.1 isName.symm]
      exact Or.inr rfl
    · rw [if_neg isName]
      rcases known with ⟨other, member, sameName⟩ | found
      · rcases mem_cons.mp member with rfl | member
        · exact absurd sameName.symm isName
        · exact Or.inl ⟨other, member, sameName⟩
      · exact Or.inr found

def PlainHeaders (headers : List MimeHeader) : Prop :=
  (∀ header ∈ headers, 58 ∉ header.value) ∧
    ∀ header ∈ headers, ∀ other ∈ headers, folded header.name = folded other.name → header.value = other.value

theorem length_le_lines (headers : List MimeHeader) : headers.length ≤ (headers.flatMap MimeHeader.line).length := by
  induction headers with
  | nil => exact Nat.zero_le _
  | cons header headers ih =>
    rw [flatMap_cons, length_append, length_cons]
    have line : 4 ≤ header.line.length := by
      simp [MimeHeader.line]
      omega
    omega

theorem headersStripped_iff {buf : MsIOBuffer} {headers : List MimeHeader} {body content : List UInt8}
    (buffered : Buffered buf content) (response : IsResponse headers body content) :
    HeadersStripped buf headers body ↔ PlainHeaders headers := by
  have atStart : Buffered buf ([] ++ content) := buffered
  constructor
  · intro stripped
    obtain ⟨hashTable, next, run, _, values⟩ := stripped
    obtain ⟨result, other, sameRun, _, plain⟩ := stripHeaders_guarded atStart (Nat.lt_succ_self _) create_plainValues
    rw [← buffered.offset] at sameRun
    have same := run.symm.trans sameRun
    rw [Option.some.injEq, Prod.mk.injEq] at same
    have noColons := plain hashTable same.1.symm
    constructor
    · intro header member
      exact noColons.2 _ _ (values header member)
    · intro header member other otherMember sameName
      have found := values header member
      rw [lookup_congr hashTable sameName, values other otherMember, Option.some.injEq] at found
      exact found.symm
  · intro plain
    have enough : headers.length ≤ buf.data_offset + 1 := by
      have lines := length_le_lines headers
      rw [buffered.offset, response.content, append_assoc, length_append]
      omega
    rw [response.content] at atStart
    obtain ⟨next, run, holds⟩ := stripHeaders_response response.someHeaders response.wellFormed plain.1 atStart enough
      msCreateHashTable
    refine ⟨_, next, run, holds, ?_⟩
    intro header member
    apply storeHeaders_lookup headers create_invariant
    · intro other otherMember sameName
      exact plain.2 other otherMember header member sameName
    · exact Or.inl ⟨header, member, rfl⟩

/-- The headers of a response come back and its body stays; whatever else is in the buffer does no harm. -/
structure KeepsBody (buf : MsIOBuffer) (content : List UInt8) : Prop where
  response : ∀ headers body, IsResponse headers body content → HeadersStripped buf headers body
  other : (∀ headers body, ¬ IsResponse headers body content) →
    Guarded buf (msIO_getAndStripStdoutBufferMimeHeaders buf) ∧ Guarded buf (msIO_stripStdoutBufferContentType buf) ∧
      Guarded buf (msIO_stripStdoutBufferContentHeaders buf)

theorem mimeHeaders_guarded {buf : MsIOBuffer} {content : List UInt8} (buffered : Buffered buf content) :
    Guarded buf (msIO_getAndStripStdoutBufferMimeHeaders buf) := by
  have atStart : Buffered buf ([] ++ content) := buffered
  obtain ⟨result, next, run, kept, _⟩ := stripHeaders_guarded atStart (Nat.lt_succ_self _) create_plainValues
  rw [← buffered.offset] at run
  exact ⟨result, next, run, kept⟩

theorem strippedHeaders_keepBody_iff (malloc : Nat → UInt8) (writes : List (List UInt8)) :
    ∃ buf, bufferWrites malloc writes = some buf ∧
      (KeepsBody buf writes.flatten ↔
        (∀ headers body, IsResponse headers body writes.flatten → PlainHeaders headers) ∧
          ((∀ headers body, ¬ IsResponse headers body writes.flatten) →
            ¬ CutType writes.flatten ∧ ¬ CutHeaders writes.flatten)) := by
  obtain ⟨buf, written, buffered⟩ := bufferWrites_buffered malloc writes
  refine ⟨buf, written, ?_⟩
  constructor
  · intro keeps
    constructor
    · intro headers body response
      exact (headersStripped_iff buffered response).mp (keeps.response headers body response)
    · intro other
      obtain ⟨_, contentType, contentHeaders⟩ := keeps.other other
      exact ⟨(contentType_guarded_iff buffered).mp contentType, (contentHeaders_guarded_iff buffered).mp contentHeaders⟩
  · intro ⟨plain, notCut⟩
    constructor
    · intro headers body response
      exact (headersStripped_iff buffered response).mpr (plain headers body response)
    · intro other
      obtain ⟨wholeType, wholeHeaders⟩ := notCut other
      exact ⟨mimeHeaders_guarded buffered, (contentType_guarded_iff buffered).mpr wholeType,
        (contentHeaders_guarded_iff buffered).mpr wholeHeaders⟩

theorem timeOfDay_losesBody : ∃ buf, bufferWrites (fun _ => 0) [ascii "Date: 12:00\r\n\r\nx"] = some buf ∧
    ¬ KeepsBody buf (ascii "Date: 12:00\r\n\r\nx") := by
  obtain ⟨buf, written, buffered⟩ := bufferWrites_buffered (fun _ => 0) [ascii "Date: 12:00\r\n\r\nx"]
  rw [List.flatten_singleton] at buffered
  refine ⟨buf, written, ?_⟩
  intro keeps
  have response : IsResponse [⟨ascii "Date", ascii "12:00"⟩] (ascii "x") (ascii "Date: 12:00\r\n\r\nx") := by
    constructor
    · simp
    · decide
    · intro header member
      rw [List.mem_singleton] at member
      subst member
      constructor <;> decide
    · decide
  have plain := (headersStripped_iff buffered response).mp (keeps.response _ _ response)
  exact absurd (plain.1 _ List.mem_cons_self) (by decide)

end MapServer
