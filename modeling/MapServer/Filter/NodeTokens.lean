import MapServer.Filter.LiteralTokens

namespace MapServer

def comparisonCode {α : Type} (pszXMLOp : CString) (psRightNode : FilterEncodingNode α) : Option TokenCode :=
  if isOneOf ["PropertyIsEqualTo"] pszXMLOp then
    some (if psRightNode.isOne then .MS_TOKEN_COMPARISON_IEQ else .MS_TOKEN_COMPARISON_EQ)
  else if isOneOf ["PropertyIsNotEqualTo"] pszXMLOp then some .MS_TOKEN_COMPARISON_NE
  else if isOneOf ["PropertyIsLessThan"] pszXMLOp then some .MS_TOKEN_COMPARISON_LT
  else if isOneOf ["PropertyIsGreaterThan"] pszXMLOp then some .MS_TOKEN_COMPARISON_GT
  else if isOneOf ["PropertyIsLessThanOrEqualTo"] pszXMLOp then some .MS_TOKEN_COMPARISON_LE
  else if isOneOf ["PropertyIsGreaterThanOrEqualTo"] pszXMLOp then some .MS_TOKEN_COMPARISON_GE
  else none

theorem commonOperator_word {α : Type} {pszXMLOp : CString} {psRightNode : FilterEncodingNode α}
    (isBinary : FLTIsBinaryComparisonFilterType pszXMLOp = true) :
    ∃ word code, commonOperator pszXMLOp psRightNode = some (ascii word) ∧ comparisonCode pszXMLOp psRightNode = some code ∧
      (word, .code code) ∈ fixedWords α ∧ code ≠ .MS_TOKEN_FUNCTION_FROMTEXT := by
  unfold commonOperator comparisonCode
  split
  · cases psRightNode.isOne
    · exact ⟨"=", _, rfl, rfl, by simp [fixedWords], by simp⟩
    · exact ⟨"=*", _, rfl, rfl, by simp [fixedWords], by simp⟩
  · split
    · exact ⟨"!=", _, rfl, rfl, by simp [fixedWords], by simp⟩
    · split
      · exact ⟨"<", _, rfl, rfl, by simp [fixedWords], by simp⟩
      · split
        · exact ⟨">", _, rfl, rfl, by simp [fixedWords], by simp⟩
        · split
          · exact ⟨"<=", _, rfl, rfl, by simp [fixedWords], by simp⟩
          · split
            · exact ⟨">=", _, rfl, rfl, by simp [fixedWords], by simp⟩
            · simp_all [FLTIsBinaryComparisonFilterType, isOneOf]

inductive LeafComparison (α : Type) where
  | binary (kind : ValueKind) (name : CString) (code : TokenCode) (literal : CString)
  | between (kind : ValueKind) (name low high : CString)
  | like (name : CString) (code : TokenCode) (pattern : CString)
  | featureIds (kind : ValueKind) (pszAttribute pszId : CString) (others : List CString)
  deriving DecidableEq

namespace LeafComparison
variable {α Time Shape : Type} (readers : TokenReaders α Time Shape)

def tokens : LeafComparison α → Option (List (Token α Time Shape))
  | .binary kind name code literal => comparisonTokens readers kind name code literal
  | .between kind name low high => betweenTokens readers kind name low high
  | .like name code pattern =>
    some [.character 40, .MS_TOKEN_BINDING_STRING name, .code code, .MS_TOKEN_LITERAL_STRING pattern, .character 41]
  | .featureIds kind pszAttribute pszId others => idsTokens readers kind pszAttribute (pszId :: others)

/-- The names and the literals are none of those that the lexer reads as something else. -/
def Fits : LeafComparison α → Prop
  | .binary kind name _ literal => NameFits kind name ∧ LiteralFits readers stringQuote kind literal
  | .between kind name low high =>
    (NameFits kind name ∧ kind.escape ∉ name) ∧ LiteralFits readers stringQuote kind low ∧
      LiteralFits readers stringQuote kind high
  | .like _ _ _ => True
  | .featureIds kind pszAttribute pszId others =>
    NameFits kind pszAttribute ∧ ∀ id ∈ pszId :: others, LiteralFits readers (fun _ => false) kind id

end LeafComparison

section Leaves
variable {α Time Shape : Type} (lp : CommonLayer α)

def leafComparison : FilterEncodingNode α → Option (LeafComparison α)
  | .null => none
  | .node .FILTER_NODE_TYPE_COMPARISON (some pszXMLOp) pOther _ psLeftNode psRightNode =>
    match psLeftNode.pszValue with
    | some name =>
      if FLTIsBinaryComparisonFilterType pszXMLOp then
        (comparisonCode pszXMLOp psRightNode).map fun code =>
          .binary (comparisonKind lp name false psRightNode.pszValue) name code (psRightNode.pszValue.getD [])
      else
        match psRightNode.pszValue with
        | some value =>
          if isOneOf ["PropertyIsLike"] pszXMLOp then
            match pOther with
            | .like propIsLike =>
              match propIsLike.pszWildCard, propIsLike.pszSingleChar, propIsLike.pszEscapeChar with
              | pszWild :: _, pszSingle :: _, pszEscape :: _ =>
                some (.like name (if propIsLike.bCaseInsensitive then .MS_TOKEN_COMPARISON_IRE else .MS_TOKEN_COMPARISON_RE)
                  (likeRegex pszWild pszSingle pszEscape value))
              | _, _, _ => none
            | _ => none
          else
            match msStringSplit 59 value with
            | [low, high] => some (.between (kindOf lp name [low, high]) name low high)
            | _ => none
        | none => none
    | none => none
  | .node .FILTER_NODE_TYPE_FEATUREID (some pszValue) _ _ _ _ =>
    match lp.msOWSLookupMetadata (ascii "featureid"), msStringSplit 44 pszValue with
    | some pszAttribute, pszId :: others =>
      some (.featureIds (idKind (idsAreStrings (pszId :: others))) pszAttribute (commonId pszId) (others.map commonId))
    | _, _ => none
  | _ => none

theorem not_like_of_binary {pszXMLOp : CString} (isBinary : FLTIsBinaryComparisonFilterType pszXMLOp = true) :
    isOneOf ["PropertyIsLike"] pszXMLOp = false := by
  apply Bool.eq_false_iff.mpr
  intro isLike
  simp only [FLTIsBinaryComparisonFilterType, isOneOf, List.any_cons, List.any_nil, Bool.or_false, Bool.or_eq_true,
    sameIgnoringCase_iff] at isBinary isLike
  rw [isLike] at isBinary
  revert isBinary
  decide +kernel

variable {lp} {readers : TokenReaders α Time Shape} {text : CString}

theorem binary_leaf {pszXMLOp name : CString} {psLeftNode psRightNode : FilterEncodingNode α}
    (isBinary : FLTIsBinaryComparisonFilterType pszXMLOp = true) (isName : psLeftNode.pszValue = some name) :
    ∃ code, comparisonCode pszXMLOp psRightNode = some code ∧
      ((∃ tokens, comparisonTokens readers (comparisonKind lp name false psRightNode.pszValue) name code
          (psRightNode.pszValue.getD []) = some tokens ∧
        Tokens readers (binaryComparisonText lp pszXMLOp psLeftNode psRightNode) tokens) ↔
      NameFits (comparisonKind lp name false psRightNode.pszValue) name ∧
        LiteralFits readers stringQuote (comparisonKind lp name false psRightNode.pszValue)
          (psRightNode.pszValue.getD [])) := by
  obtain ⟨word, code, isOperator, isCode, member, other⟩ := @commonOperator_word α pszXMLOp psRightNode isBinary
  refine ⟨code, isCode, ?_⟩
  rw [binaryComparisonText, isName, isOperator, not_like_of_binary isBinary]
  exact comparison_tokens_iff member (sameIgnoringCase_self _) other

theorem between_leaf {name value : CString}
    (written : FLTGetIsBetweenComparisonCommonExpresssion lp name value ≠ []) :
    ∃ low high, msStringSplit 59 value = [low, high] ∧
      ((∃ tokens, betweenTokens readers (kindOf lp name [low, high]) name low high = some tokens ∧
        Tokens readers (FLTGetIsBetweenComparisonCommonExpresssion lp name value) tokens) ↔
      (NameFits (kindOf lp name [low, high]) name ∧ (kindOf lp name [low, high]).escape ∉ name) ∧
        LiteralFits readers stringQuote (kindOf lp name [low, high]) low ∧
        LiteralFits readers stringQuote (kindOf lp name [low, high]) high) := by
  unfold FLTGetIsBetweenComparisonCommonExpresssion at written ⊢
  split at written
  · rename_i low high bounds
    exact ⟨low, high, bounds, between_tokens_iff⟩
  · exact absurd rfl written

theorem like_leaf {pOther : FilterOther α} {name value : CString}
    (written : FLTGetIsLikeComparisonCommonExpression pOther name value ≠ []) :
    ∃ propIsLike pszWild pszSingle pszEscape, pOther = .like propIsLike ∧ propIsLike.pszWildCard.head? = some pszWild ∧
      propIsLike.pszSingleChar.head? = some pszSingle ∧ propIsLike.pszEscapeChar.head? = some pszEscape ∧
      Tokens readers (FLTGetIsLikeComparisonCommonExpression pOther name value) [.character 40, .MS_TOKEN_BINDING_STRING name,
        .code (if propIsLike.bCaseInsensitive then .MS_TOKEN_COMPARISON_IRE else .MS_TOKEN_COMPARISON_RE),
        .MS_TOKEN_LITERAL_STRING (likeRegex pszWild pszSingle pszEscape value), .character 41] := by
  unfold FLTGetIsLikeComparisonCommonExpression at written ⊢
  split at written
  · rename_i propIsLike
    split at written
    · rename_i pszWild _ pszSingle _ pszEscape _ isWild isSingle isEscape
      refine ⟨propIsLike, pszWild, pszSingle, pszEscape, rfl, by simp [isWild], by simp [isSingle], by simp [isEscape], ?_⟩
      cases propIsLike.bCaseInsensitive with
      | true =>
        have step := @like_tokens α Time Shape readers pszWild pszSingle pszEscape name value (ascii "~*")
          .MS_TOKEN_COMPARISON_IRE (by simp) "~*" (by simp [fixedWords]) (by simp)
        simpa [ascii] using step
      | false =>
        have step := @like_tokens α Time Shape readers pszWild pszSingle pszEscape name value (ascii "~")
          .MS_TOKEN_COMPARISON_RE (by simp) "~" (by simp [fixedWords]) (by simp)
        simpa [ascii] using step
    · exact absurd rfl written
  · exact absurd rfl written

theorem featureIds_leaf {pszValue : CString} (written : FLTGetFeatureIdCommonExpression lp pszValue ≠ []) :
    ∃ pszAttribute pszId others, lp.msOWSLookupMetadata (ascii "featureid") = some pszAttribute ∧
      msStringSplit 44 pszValue = pszId :: others ∧
      ((∃ tokens, idsTokens readers (idKind (idsAreStrings (pszId :: others))) pszAttribute
          (commonId pszId :: others.map commonId) = some tokens ∧
        Tokens readers (FLTGetFeatureIdCommonExpression lp pszValue) tokens) ↔
      NameFits (idKind (idsAreStrings (pszId :: others))) pszAttribute ∧
        ∀ id ∈ commonId pszId :: others.map commonId,
          LiteralFits readers (fun _ => false) (idKind (idsAreStrings (pszId :: others))) id) := by
  unfold FLTGetFeatureIdCommonExpression at written ⊢
  split at written
  · rename_i pszAttribute isAttribute
    cases ids : msStringSplit 44 pszValue with
    | nil =>
      rw [ids] at written
      exact absurd rfl written
    | cons pszId others =>
      refine ⟨pszAttribute, pszId, others, isAttribute, rfl, ?_⟩
      have terms : others.map (fun token => commonIdTerm pszAttribute (idsAreStrings (pszId :: others)) (commonId token)) =
          (others.map commonId).map (commonIdTerm pszAttribute (idsAreStrings (pszId :: others))) := by
        simp
      simp only [List.map_cons]
      rw [terms, otherIdsText_eq]
      simpa [ascii] using
        @featureIds_tokens_iff α Time Shape readers (idsAreStrings (pszId :: others)) pszAttribute (commonId pszId)
          (others.map commonId)
  · exact absurd rfl written

def isLeafType (eType : FilterNodeType) : Prop := eType = .FILTER_NODE_TYPE_COMPARISON ∨ eType = .FILTER_NODE_TYPE_FEATUREID

theorem comparison_written {pszXMLOp : CString} {pOther : FilterOther α} {pszSRS : Option CString}
    {psLeftNode psRightNode : FilterEncodingNode α}
    (expression : FLTGetCommonExpression lp (.node .FILTER_NODE_TYPE_COMPARISON (some pszXMLOp) pOther pszSRS psLeftNode
      psRightNode) = some text)
    (written : text ≠ []) :
    ∃ name, psLeftNode.pszValue = some name ∧
      if FLTIsBinaryComparisonFilterType pszXMLOp then text = binaryComparisonText lp pszXMLOp psLeftNode psRightNode
      else ∃ value, psRightNode.pszValue = some value ∧
        if isOneOf ["PropertyIsLike"] pszXMLOp then text = FLTGetIsLikeComparisonCommonExpression pOther name value
        else text = FLTGetIsBetweenComparisonCommonExpresssion lp name value := by
  rw [FLTGetCommonExpression] at expression
  split at expression
  · split at expression
    · cases isName : psLeftNode.pszValue with
      | none =>
        cases expression
        exact absurd (by rw [binaryComparisonText, isName]) written
      | some name =>
        cases expression
        exact ⟨name, rfl, by rw [if_pos ‹_›]⟩
    · split at expression
      · split at expression
        · rename_i name value isName isValue
          cases expression
          refine ⟨name, isName, ?_⟩
          rw [if_neg ‹_›]
          exact ⟨value, isValue, by rw [if_pos ‹_›]⟩
        · cases expression
          exact absurd rfl written
        · cases expression
      · split at expression
        · split at expression
          · rename_i name value isName isValue
            cases expression
            refine ⟨name, isName, ?_⟩
            rw [if_neg ‹_›]
            exact ⟨value, isValue, by rw [if_neg ‹_›]⟩
          · cases expression
        · cases expression
  · cases expression

/-- The text of a comparison or of feature ids has the intended tokens exactly when its names and literals fit. -/
theorem FLTGetCommonExpression_tokens_iff {eType : FilterNodeType} {pszValue : Option CString} {pOther : FilterOther α}
    {pszSRS : Option CString} {psLeftNode psRightNode : FilterEncodingNode α} (isLeaf : isLeafType eType)
    (expression : FLTGetCommonExpression lp (.node eType pszValue pOther pszSRS psLeftNode psRightNode) = some text)
    (written : text ≠ []) :
    ∃ comparison, leafComparison lp (.node eType pszValue pOther pszSRS psLeftNode psRightNode) = some comparison ∧
      ((∃ tokens, comparison.tokens readers = some tokens ∧ Tokens readers text tokens) ↔ comparison.Fits readers) := by
  rcases isLeaf with rfl | rfl
  · cases pszValue with
    | none => cases expression
    | some pszXMLOp =>
      obtain ⟨name, isName, parts⟩ := comparison_written expression written
      by_cases isBinary : FLTIsBinaryComparisonFilterType pszXMLOp = true
      · rw [if_pos isBinary] at parts
        subst parts
        obtain ⟨code, isCode, reads⟩ := @binary_leaf α Time Shape lp readers pszXMLOp name _ psRightNode isBinary isName
        refine ⟨.binary _ name code _, ?_, reads⟩
        rw [leafComparison, isName]
        simp only [isBinary, if_true, isCode, Option.map_some]
      · rw [if_neg isBinary] at parts
        obtain ⟨value, isValue, parts⟩ := parts
        by_cases isLike : isOneOf ["PropertyIsLike"] pszXMLOp = true
        · rw [if_pos isLike] at parts
          subst parts
          obtain ⟨propIsLike, pszWild, pszSingle, pszEscape, rfl, isWild, isSingle, isEscape, reads⟩ :=
            @like_leaf α Time Shape readers pOther name value written
          obtain ⟨wildRest, isWild⟩ := List.head?_eq_some_iff.mp isWild
          obtain ⟨singleRest, isSingle⟩ := List.head?_eq_some_iff.mp isSingle
          obtain ⟨escapeRest, isEscape⟩ := List.head?_eq_some_iff.mp isEscape
          have isComparison : leafComparison lp (.node .FILTER_NODE_TYPE_COMPARISON (some pszXMLOp) (.like propIsLike) pszSRS
              psLeftNode psRightNode) = some (.like name
                (if propIsLike.bCaseInsensitive then .MS_TOKEN_COMPARISON_IRE else .MS_TOKEN_COMPARISON_RE)
                (likeRegex pszWild pszSingle pszEscape value)) := by
            rw [leafComparison, isName]
            simp only [if_neg isBinary, if_pos isLike, isValue, isWild, isSingle, isEscape]
          exact ⟨_, isComparison, fun _ => trivial, fun _ => ⟨_, rfl, reads⟩⟩
        · rw [if_neg isLike] at parts
          subst parts
          obtain ⟨low, high, bounds, reads⟩ := @between_leaf α Time Shape lp readers name value written
          refine ⟨.between (kindOf lp name [low, high]) name low high, ?_, reads⟩
          rw [leafComparison, isName]
          simp only [if_neg isBinary, if_neg isLike, isValue, bounds]
  · cases pszValue with
    | none =>
      cases expression
      exact absurd rfl written
    | some ids =>
      cases expression
      obtain ⟨pszAttribute, pszId, others, isAttribute, split, reads⟩ :=
        @featureIds_leaf α Time Shape lp readers ids written
      exact ⟨.featureIds _ pszAttribute (commonId pszId) (others.map commonId),
        by rw [leafComparison, isAttribute, split], reads⟩

end Leaves

section Names

def bareLayer : CommonLayer Nat := ⟨fun _ => none, fun _ => [], fun _ => []⟩

def nameReaders : TokenReaders Nat Unit Unit := ⟨fun _ => 0, fun _ => none, fun _ => none⟩

def nameIs (literal : CString) : FilterEncodingNode Nat :=
  .node .FILTER_NODE_TYPE_COMPARISON (some (ascii "PropertyIsEqualTo")) .null none
    (.leaf .FILTER_NODE_TYPE_PROPERTYNAME (some (ascii "name"))) (.leaf .FILTER_NODE_TYPE_LITERAL (some literal))

theorem FLTGetCommonExpression_tokens_iff_name :
    ∃ comparison, leafComparison bareLayer (nameIs (ascii "a")) = some comparison ∧
      ((∃ tokens, comparison.tokens nameReaders = some tokens ∧
        Tokens nameReaders (ascii "(\"[name]\" = \"a\")") tokens) ↔ comparison.Fits nameReaders) :=
  FLTGetCommonExpression_tokens_iff (Or.inl rfl) (by decide +kernel) (by decide +kernel)

theorem literal_takes_quote :
    ∃ comparison, leafComparison bareLayer (nameIs [97, 92]) = some comparison ∧
      FLTGetCommonExpression bareLayer (nameIs [97, 92]) = some (ascii "(\"[name]\" = \"a\\\")") ∧
      ¬ ∃ tokens, comparison.tokens nameReaders = some tokens ∧
        Tokens nameReaders (ascii "(\"[name]\" = \"a\\\")") tokens := by
  have isText : ascii "(\"[name]\" = \"a\\\")" = ascii "(" ++ ValueKind.string.opening ++
      FLTEscapePropertyName (ascii "name") ValueKind.string.escape ++ ValueKind.string.closing ++ ascii "=" ++ ascii " " ++
      ValueKind.string.quote ++ msStdStringEscape [97, 92] ++ ValueKind.string.quote ++ ascii ")" := by decide +kernel
  refine ⟨.binary .string (ascii "name") .MS_TOKEN_COMPARISON_EQ [97, 92], by decide +kernel, by decide +kernel, ?_⟩
  have isEqual : ("=", .code .MS_TOKEN_COMPARISON_EQ) ∈ fixedWords Nat := by simp [fixedWords]
  rw [isText, LeafComparison.tokens, comparison_tokens_iff isEqual (by simp) (by simp)]
  rintro ⟨_, ⟨_, afterBackslash⟩, _⟩
  obtain ⟨c, rest, noNext, _⟩ := afterBackslash [97] [] rfl
  cases noNext

end Names

end MapServer
