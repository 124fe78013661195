import DeerFlow.Persistence.JsonMatch

/-! What the metadata filter finds. On both databases it is equality of kind and value, as long as
the stored integers fit in 64 bits and the texts are ones that both databases can read. -/

namespace DeerFlow.Persistence

section Numbers

theorem isDigit_toDigits (n : Nat) : (Nat.toDigits 10 n).all Char.isDigit = true :=
  List.all_eq_true.mpr fun _ hc => Nat.isDigit_of_mem_toDigits (by decide) (by decide) hc

theorem head_toDigits_ne_minus (n : Nat) (rest : Text) :
    (Nat.toDigits 10 n ++ rest).head? ≠ some '-' := by
  rw [List.head?_append_of_ne_nil _ Nat.toDigits_ne_nil]
  intro h
  have hdigit := Nat.isDigit_of_mem_toDigits (by decide) (by decide) (List.mem_of_mem_head? h)
  exact absurd hdigit (by decide)

theorem isIntegerText_minus (s : Text) :
    isIntegerText ('-' :: s) = (decide (s ≠ []) && s.all Char.isDigit) := rfl

theorem isIntegerText_of_head {s : Text} (h : s.head? ≠ some '-') :
    isIntegerText s = (decide (s ≠ []) && s.all Char.isDigit) := by
  unfold isIntegerText
  rw [if_neg h]

theorem isIntegerText_intText (n : Int) : isIntegerText (intText n) = true := by
  have hdigits : (decide (Nat.toDigits 10 n.natAbs ≠ []) &&
      (Nat.toDigits 10 n.natAbs).all Char.isDigit) = true := by
    rw [isDigit_toDigits, decide_eq_true Nat.toDigits_ne_nil]
    rfl
  unfold intText
  split_ifs
  · exact hdigits
  · have hhead := head_toDigits_ne_minus n.natAbs []
    rw [List.append_nil] at hhead
    rw [List.nil_append, isIntegerText_of_head hhead]
    exact hdigits

theorem integerOfText_intText (n : Int) : integerOfText (intText n) = n := by
  unfold intText integerOfText
  split_ifs with hneg hhead hhead
  · rw [List.cons_append, List.nil_append, List.tail_cons, Nat.ofDigitChars_ten_toDigits]
    omega
  · exact absurd rfl hhead
  · have hminus := head_toDigits_ne_minus n.natAbs []
    rw [List.append_nil] at hminus
    exact absurd hhead hminus
  · rw [List.nil_append, Nat.ofDigitChars_ten_toDigits]
    omega

theorem not_isIntegerText_float (x : FloatLiteral) : isIntegerText x.text = false := by
  have hmark : ∃ c ∈ fractionText x.fraction ++ exponentText x.exponent, c.isDigit = false := by
    rcases x.isFloat with hfraction | hexponent
    · obtain ⟨ds, hds⟩ := Option.isSome_iff_exists.mp hfraction
      rw [hds]
      exact ⟨'.', List.mem_append_left _ (List.mem_cons_self ..), by decide⟩
    · obtain ⟨e, he⟩ := Option.isSome_iff_exists.mp hexponent
      rw [he]
      refine ⟨if e.upper then 'E' else 'e', List.mem_append_right _ (List.mem_cons_self ..), ?_⟩
      split <;> decide
  obtain ⟨c, hc, hdigit⟩ := hmark
  have hall (front : Text) :
      (front ++ (fractionText x.fraction ++ exponentText x.exponent)).all Char.isDigit = false := by
    rw [List.all_eq_false]
    exact ⟨c, List.mem_append_right _ hc, by simp [hdigit]⟩
  unfold FloatLiteral.text
  cases x.negative with
  | false =>
    rw [if_neg Bool.false_ne_true, List.nil_append,
      isIntegerText_of_head (head_toDigits_ne_minus _ _), hall, Bool.and_false]
  | true =>
    rw [if_pos rfl, List.append_assoc, List.singleton_append, isIntegerText_minus, hall,
      Bool.and_false]

end Numbers

section Codes

theorem chars?_codes (text : Text) : (codes text).chars? = some text := by
  have hchar (c : Char) : CodePoint.toChar? (Fin.ofNat 0x110000 c.toNat) = some c := by
    have hlt : c.toNat < 0x110000 := by
      have hvalid : c.toNat.isValidChar := c.valid
      unfold Nat.isValidChar at hvalid
      omega
    have hval : (Fin.ofNat 0x110000 c.toNat : CodePoint).val = c.toNat := Nat.mod_eq_of_lt hlt
    have hvalid : (Fin.ofNat 0x110000 c.toNat : CodePoint).val.isValidChar := by
      rw [hval]
      exact c.valid
    rw [CodePoint.toChar?, dif_pos hvalid]
    refine congrArg some (Char.ext (UInt32.toNat_inj.mp ?_))
    exact hval
  unfold CodeText.chars? codes
  induction text with
  | nil => rfl
  | cons c text ih =>
    rw [List.map_cons, List.mapM_cons, hchar, ih]
    rfl

theorem codes_inj {s t : Text} : codes s = codes t ↔ s = t := by
  refine ⟨fun h => ?_, congrArg codes⟩
  have hsame := congrArg CodeText.chars? h
  rw [chars?_codes, chars?_codes] at hsame
  exact Option.some.inj hsame

theorem readable_of_get {object : MetadataObject} {key : String} {x : StoredJson}
    (h : unreadableItems object.items = false) (hx : object.get key = some x) :
    unreadableJson x = false := by
  obtain ⟨item, hitem, rfl⟩ := Option.map_eq_some_iff.mp hx
  have hmem := List.mem_of_find?_eq_some hitem
  generalize object.items = items at h hmem
  induction items with
  | nil => cases hmem
  | cons other items ih =>
    obtain ⟨k, y⟩ := other
    rw [unreadableItems, Bool.or_eq_false_iff, Bool.or_eq_false_iff] at h
    rcases List.mem_cons.mp hmem with rfl | hmem
    · exact h.1.2
    · exact ih h.2 hmem

/-- A text that can be read is taken by a search, and extracted, as it is. -/
theorem unreadable_eq_false {s : CodeText} (h : unreadable s = false) :
    s.any CodePoint.isSurrogate = false ∧ 0 ∉ s := by
  unfold unreadable at h
  rw [List.any_eq_false] at h
  refine ⟨List.any_eq_false.mpr fun c hc hsurrogate => h c hc ?_, fun hzero => h 0 hzero rfl⟩
  rw [hsurrogate, Bool.or_true]

end Codes

section Equality
variable {build : DatabaseBuild} {object : MetadataObject} {filter : JsonMatch} {key : String}

/-- The object has the key, with a value of the filter's kind that equals it. -/
def MetadataObject.holds (object : MetadataObject) (filter : JsonMatch) : Bool :=
  match object.get filter.key, filter.value with
  | some .null, .null => true
  | some (.bool c), .bool b => b = c
  | some (.int m), .int n => n = m
  | some (.str t), .str s => s = t.codes
  | _, _ => false

/-- Every text can be read, and the number that is compared fits. -/
structure Readable (object : MetadataObject) (filter : JsonMatch) : Prop where
  stored : unreadableItems object.items = false
  given : ∀ s, filter.value = .str s → unreadable s = false
  bigint : ∀ i n, filter.value = .int i → object.get filter.key = some (.int n) →
    int64Min ≤ n ∧ n ≤ int64Max

/-- What both databases can compare with the filter. -/
structure Comparable (build : DatabaseBuild) (object : MetadataObject) (filter : JsonMatch) :
    Prop extends Readable object filter where
  label : build.readsLabels = true ∨ '\n' ∉ filter.key.toList ∨ object.holds filter = false

end Equality

section Evaluation
variable {db : Database} {otherInteger : SqlValue → Int} {object : MetadataObject} {key : String}
  {found : Option StoredJson} {names : List String} {name : String}

theorem sqlEq_text (s t : String) :
    sqlEq (.text (codes s.toList)) (.text (codes t.toList)) = .bool (decide (s = t)) := by
  unfold sqlEq
  rw [if_neg (by simp)]
  simp [codes_inj, String.toList_inj]

theorem eval_typeof (h : db.field object key = .ok found) :
    SqlExpr.typeof.eval db otherInteger object key =
      .ok ((found.map fun x => SqlValue.text (codes (db.typeof x).toList)).getD .null) := by
  rw [SqlExpr.eval, h]
  rfl

theorem eval_extract (h : db.field object key = .ok found) :
    SqlExpr.extract.eval db otherInteger object key =
      .ok ((found.map db.extract).getD .null) := by
  rw [SqlExpr.eval, h]
  rfl

/-- The type of what is found, as a truth value. -/
def typeIs (db : Database) (found : Option StoredJson) (name : String) : SqlValue :=
  (found.map fun x => SqlValue.bool (decide (db.typeof x = name))).getD .null

theorem eval_typeIs (h : db.field object key = .ok found) (name : String) :
    (SqlExpr.eq .typeof (.literal name)).eval db otherInteger object key =
      .ok (typeIs db found name) := by
  rw [SqlExpr.eval, eval_typeof h]
  change Except.ok (sqlEq _ (.text (codes name.toList))) = _
  rcases found with _ | x
  · rfl
  · exact congrArg Except.ok (sqlEq_text _ _)

theorem sqlAnd_true {a b : SqlValue} :
    sqlAnd a b = .bool true ↔ a = .bool true ∧ b = .bool true := by
  unfold sqlAnd
  split <;> simp_all

theorem typeIs_true : typeIs db found name = .bool true ↔
    ∃ x, found = some x ∧ db.typeof x = name := by
  unfold typeIs
  rcases found with _ | x <;> simp

theorem sqlEq_true {a b : SqlValue} : sqlEq a b = .bool true ↔ a = b ∧ a ≠ .null := by
  unfold sqlEq
  split_ifs with hnull
  · simp only [false_iff, not_and, not_not]
    rintro rfl
    exact hnull.elim id id
  · simp only [SqlValue.bool.injEq, decide_eq_true_eq]
    exact ⟨fun heq => ⟨heq, fun hnone => hnull (.inl hnone)⟩, fun h => h.1⟩

theorem eval_and {a b : SqlExpr} {x y : SqlValue}
    (ha : a.eval db otherInteger object key = .ok x)
    (hb : b.eval db otherInteger object key = .ok y) :
    (SqlExpr.and a b).eval db otherInteger object key = .ok (sqlAnd x y) := by
  rw [SqlExpr.eval, ha, hb]
  rfl

theorem eval_eq {a b : SqlExpr} {x y : SqlValue}
    (ha : a.eval db otherInteger object key = .ok x)
    (hb : b.eval db otherInteger object key = .ok y) :
    (SqlExpr.eq a b).eval db otherInteger object key = .ok (sqlEq x y) := by
  rw [SqlExpr.eval, ha, hb]
  rfl

theorem eval_cast {a : SqlExpr} {x : SqlValue} (type : IntegerType)
    (ha : a.eval db otherInteger object key = .ok x) :
    (SqlExpr.cast a type).eval db otherInteger object key = castTo otherInteger type x := by
  rw [SqlExpr.eval, ha]
  rfl

theorem castTo_integer (otherInteger : SqlValue → Int) (x : SqlValue) :
    ∃ y, castTo otherInteger .integer x = .ok y := by
  rcases x with _ | _ | _ | (_ | _) | _ <;> exact ⟨_, rfl⟩

end Evaluation

section Selection
variable {db : Database} {otherInteger : SqlValue → Int} {object : MetadataObject}
  {filter : JsonMatch}

theorem selects_of_eval {x : SqlValue}
    (h : (buildClause db.names filter.value).eval db otherInteger object filter.key = .ok x)
    (hx : x = .bool true ↔ object.holds filter = true) :
    filter.selects db otherInteger object = .ok (object.holds filter) := by
  rw [JsonMatch.selects, h]
  change Except.ok (decide (x = .bool true)) = _
  cases hholds : object.holds filter with
  | false => exact congrArg Except.ok (decide_eq_false fun htrue => by simp [hx.mp htrue] at hholds)
  | true => exact congrArg Except.ok (decide_eq_true (hx.mpr hholds))

/-- The kinds of JSON that a filter value can equal. -/
theorem holds_iff : object.holds filter = true ↔
    (object.get filter.key = some .null ∧ filter.value = .null) ∨
    (∃ b, object.get filter.key = some (.bool b) ∧ filter.value = .bool b) ∨
    (∃ n, object.get filter.key = some (.int n) ∧ filter.value = .int n) ∨
    ∃ s, object.get filter.key = some (.str s) ∧ filter.value = .str s.codes := by
  unfold MetadataObject.holds
  split <;> simp_all

theorem selects_null (hfield : db.field object filter.key = .ok (object.get filter.key))
    (hkind : ∀ x, db.typeof x = db.names.nullType ↔ x = .null) (hvalue : filter.value = .null) :
    filter.selects db otherInteger object = .ok (object.holds filter) := by
  have heval : (buildClause db.names filter.value).eval db otherInteger object filter.key =
      .ok (typeIs db (object.get filter.key) db.names.nullType) := by
    rw [hvalue]
    exact eval_typeIs hfield _
  refine selects_of_eval heval ?_
  rw [typeIs_true, holds_iff, hvalue]
  simp [hkind]

theorem selects_str (hfield : db.field object filter.key = .ok (object.get filter.key))
    (hkind : ∀ x, db.typeof x = db.names.stringType ↔ ∃ t, x = .str t)
    (hextract : ∀ t, object.get filter.key = some (.str t) → db.extract (.str t) = .text t.codes)
    {s : CodeText} (hbind : db.bind (.str s) = .ok (.text s)) (hvalue : filter.value = .str s) :
    filter.selects db otherInteger object = .ok (object.holds filter) := by
  have heval : (buildClause db.names filter.value).eval db otherInteger object filter.key =
      .ok (sqlAnd (typeIs db (object.get filter.key) db.names.stringType)
        (sqlEq (((object.get filter.key).map db.extract).getD .null) (.text s))) := by
    rw [hvalue]
    exact eval_and (eval_typeIs hfield _) (eval_eq (eval_extract hfield) hbind)
  refine selects_of_eval heval ?_
  rw [sqlAnd_true, typeIs_true, sqlEq_true, holds_iff, hvalue]
  constructor
  · rintro ⟨⟨x, hx, htype⟩, heq, -⟩
    obtain ⟨t, rfl⟩ := (hkind x).mp htype
    rw [hx, Option.map_some, Option.getD_some, hextract t hx, SqlValue.text.injEq] at heq
    exact .inr (.inr (.inr ⟨t, hx, congrArg FilterValue.str heq.symm⟩))
  · rintro (⟨-, h⟩ | ⟨b, -, h⟩ | ⟨n, -, h⟩ | ⟨t, ht, h⟩)
    · cases h
    · cases h
    · cases h
    · obtain rfl := FilterValue.str.inj h
      rw [ht, Option.map_some, Option.getD_some, hextract t ht]
      exact ⟨⟨_, rfl, (hkind _).mpr ⟨t, rfl⟩⟩, rfl, SqlValue.noConfusion⟩

end Selection

section Sqlite
variable {build : DatabaseBuild} {otherInteger : SqlValue → Int} {object : MetadataObject}
  {filter : JsonMatch}

theorem typeof_sqlite (x : StoredJson) : ((sqlite build).typeof x = "null" ↔ x = .null) ∧
    (∀ b : Bool, (sqlite build).typeof x = (if b then "true" else "false") ↔ x = .bool b) ∧
    ((sqlite build).typeof x = "integer" ↔ ∃ n, x = .int n) ∧
    ((sqlite build).typeof x = "text" ↔ ∃ s, x = .str s) := by
  rcases x with _ | (_ | _) | _ | _ | _ | _ | _ <;> simp [sqlite]

theorem sqlite_selects (h : Readable object filter)
    (hfield : (sqlite build).field object filter.key = .ok (object.get filter.key)) :
    filter.selects (sqlite build) otherInteger object = .ok (object.holds filter) := by
  cases hvalue : filter.value with
  | null => exact selects_null hfield (fun x => (typeof_sqlite x).1) hvalue
  | bool b =>
    have heval : (buildClause (sqlite build).names filter.value).eval (sqlite build) otherInteger
        object filter.key = .ok (typeIs (sqlite build) (object.get filter.key)
          (if b then "true" else "false")) := by
      rw [hvalue]
      exact eval_typeIs hfield _
    refine selects_of_eval heval ?_
    rw [typeIs_true, holds_iff, hvalue]
    simp [(typeof_sqlite _).2.1 b, eq_comm]
  | int i =>
    obtain ⟨y, hy⟩ := castTo_integer otherInteger
      (((object.get filter.key).map (sqlite build).extract).getD .null)
    have heval : (buildClause (sqlite build).names filter.value).eval (sqlite build) otherInteger
        object filter.key = .ok (sqlAnd (typeIs (sqlite build) (object.get filter.key) "integer")
          (sqlEq y (.int i))) := by
      rw [hvalue]
      refine eval_and (eval_typeIs hfield _) (eval_eq ?_ rfl)
      exact (eval_cast .integer (eval_extract hfield)).trans hy
    have hcast (n : Int) (hn : object.get filter.key = some (.int n)) : y = .int n := by
      have hwithin := h.bigint i n hvalue hn
      rw [hn] at hy
      have hextract : (sqlite build).extract (.int n) = .int n := if_pos hwithin
      rw [Option.map_some, Option.getD_some, hextract] at hy
      exact (Except.ok.inj hy).symm
    refine selects_of_eval heval ?_
    rw [sqlAnd_true, typeIs_true, sqlEq_true, holds_iff, hvalue]
    constructor
    · rintro ⟨⟨x, hx, htype⟩, heq, -⟩
      obtain ⟨n, rfl⟩ := (typeof_sqlite x).2.2.1.mp htype
      obtain rfl := SqlValue.int.inj ((hcast n hx).symm.trans heq)
      exact .inr (.inr (.inl ⟨n, hx, rfl⟩))
    · rintro (⟨-, h⟩ | ⟨b, -, h⟩ | ⟨n, hn, h⟩ | ⟨t, -, h⟩)
      · cases h
      · cases h
      · obtain rfl := FilterValue.int.inj h
        exact ⟨⟨_, hn, rfl⟩, hcast i hn, by rw [hcast i hn]; exact SqlValue.noConfusion⟩
      · cases h
  | str s =>
    obtain ⟨hpaired, -⟩ := unreadable_eq_false (h.given s hvalue)
    have hbind : (sqlite build).bind (.str s) = .ok (.text s) := by
      unfold sqlite
      simp only [hpaired, Bool.false_eq_true, if_false]
    refine selects_str hfield (fun x => (typeof_sqlite x).2.2.2) (fun t ht => ?_) hbind hvalue
    obtain ⟨-, hzero⟩ := unreadable_eq_false (s := t.codes) (readable_of_get h.stored ht)
    show SqlValue.text (t.codes.takeWhile (· ≠ 0)) = .text t.codes
    rw [List.takeWhile_eq_self_iff.mpr]
    intro c hc
    exact decide_eq_true fun heq => hzero (heq ▸ hc)

theorem sqlite_selects_none (h : ∀ s, filter.value = .str s → unreadable s = false)
    (hfield : (sqlite build).field object filter.key = .ok none) :
    filter.selects (sqlite build) otherInteger object = .ok false := by
  have hfalse {x : SqlValue}
      (heval : (buildClause (sqlite build).names filter.value).eval (sqlite build) otherInteger
        object filter.key = .ok x) (hx : x ≠ .bool true) :
      filter.selects (sqlite build) otherInteger object = .ok false := by
    rw [JsonMatch.selects, heval]
    exact congrArg Except.ok (decide_eq_false hx)
  have hnot (name : String) : typeIs (sqlite build) none name ≠ .bool true := SqlValue.noConfusion
  have hand (name : String) (x : SqlValue) :
      sqlAnd (typeIs (sqlite build) none name) x ≠ .bool true :=
    fun htrue => hnot name (sqlAnd_true.mp htrue).1
  cases hvalue : filter.value with
  | null =>
    refine hfalse ?_ (hnot "null")
    rw [hvalue]
    exact eval_typeIs hfield _
  | bool b =>
    refine hfalse ?_ (hnot (if b then "true" else "false"))
    rw [hvalue]
    exact eval_typeIs hfield _
  | int i =>
    obtain ⟨y, hy⟩ := castTo_integer otherInteger .null
    refine hfalse ?_ (hand "integer" (sqlEq y (.int i)))
    rw [hvalue]
    refine eval_and (eval_typeIs hfield _) (eval_eq ?_ rfl)
    exact (eval_cast .integer (eval_extract hfield)).trans hy
  | str s =>
    obtain ⟨hpaired, -⟩ := unreadable_eq_false (h s hvalue)
    have hbind : (sqlite build).bind (.str s) = .ok (.text s) := by
      unfold sqlite
      simp only [hpaired, Bool.false_eq_true, if_false]
    refine hfalse ?_ (hand "text" (sqlEq .null (.text s)))
    rw [hvalue]
    exact eval_and (eval_typeIs hfield _) (eval_eq (eval_extract hfield) hbind)

end Sqlite

section Postgres
variable {build : DatabaseBuild} {otherInteger : SqlValue → Int} {object : MetadataObject}
  {filter : JsonMatch}
  {key : String}

theorem typeof_postgres (x : StoredJson) : ((postgres build).typeof x = "null" ↔ x = .null) ∧
    ((postgres build).typeof x = "boolean" ↔ ∃ b, x = .bool b) ∧
    ((postgres build).typeof x = "string" ↔ ∃ s, x = .str s) ∧
    ((postgres build).typeof x = "number" ↔
      (∃ n, x = .int n) ∨ ∃ y, x = .float y) := by
  rcases x with _ | _ | _ | _ | _ | _ | _ <;> simp [postgres]

theorem eval_likeRegex {db : Database} {a : SqlExpr} {x : SqlValue} {pattern : Text → Bool}
    (ha : a.eval db otherInteger object key = .ok x) :
    (SqlExpr.likeRegex a pattern).eval db otherInteger object key =
      .ok (sqlRegex pattern x) := by
  rw [SqlExpr.eval, ha]
  rfl

/-- The condition of the CASE: what is found is an integer. -/
def guardHolds (build : DatabaseBuild) (found : Option StoredJson) : SqlValue :=
  sqlAnd (typeIs (postgres build) found "number")
    (sqlRegex isIntegerText ((found.map (postgres build).extract).getD .null))

theorem guardHolds_true :
    guardHolds build (object.get key) = .bool true ↔ ∃ n, object.get key = some (.int n) := by
  unfold guardHolds
  rw [sqlAnd_true, typeIs_true]
  constructor
  · rintro ⟨⟨x, hx, htype⟩, hguard⟩
    rcases (typeof_postgres x).2.2.2.mp htype with ⟨n, rfl⟩ | ⟨y, rfl⟩
    · exact ⟨n, hx⟩
    · rw [hx] at hguard
      have hfloat : SqlValue.bool ((codes y.text).chars?.any isIntegerText) = .bool true := hguard
      rw [chars?_codes, Option.any_some, not_isIntegerText_float] at hfloat
      cases hfloat
  · rintro ⟨n, hn⟩
    rw [hn]
    refine ⟨⟨_, rfl, rfl⟩, ?_⟩
    show SqlValue.bool ((codes (intText n)).chars?.any isIntegerText) = .bool true
    rw [chars?_codes, Option.any_some, isIntegerText_intText]

theorem castTo_bigint (n : Int) : castTo otherInteger .bigint (.text (codes (intText n))) =
    if int64Min ≤ n ∧ n ≤ int64Max then .ok (.int n) else .error .outOfRange := by
  have hfilter : (some (intText n)).filter isIntegerText = some (intText n) := by
    rw [Option.filter_some, if_pos (isIntegerText_intText n)]
  unfold castTo
  simp only [chars?_codes, hfilter, integerOfText_intText]

/-- The CASE that guards the cast. -/
def guardedCast : SqlExpr :=
  .caseWhen (.and (.eq .typeof (.literal "number")) (.likeRegex .extract isIntegerText))
    (.cast .extract .bigint)

theorem eval_guardedCast (hfield : (postgres build).field object key = .ok (object.get key)) :
    guardedCast.eval (postgres build) otherInteger object key =
      match object.get key with
      | some (.int n) =>
        if int64Min ≤ n ∧ n ≤ int64Max then .ok (.int n) else .error .outOfRange
      | _ => .ok .null := by
  have hcondition : (SqlExpr.and (.eq .typeof (.literal "number"))
      (.likeRegex .extract isIntegerText)).eval (postgres build) otherInteger object key =
        .ok (guardHolds build (object.get key)) :=
    eval_and (eval_typeIs hfield "number") (eval_likeRegex (eval_extract hfield))
  have hcast : (SqlExpr.cast .extract .bigint).eval (postgres build) otherInteger object key = _ :=
    eval_cast .bigint (eval_extract hfield)
  have hguard : guardHolds build (object.get key) = .bool true ↔
      ∃ n, object.get key = some (.int n) := guardHolds_true
  rw [guardedCast, SqlExpr.eval, hcondition]
  change (if guardHolds build (object.get key) = .bool true then _ else _) = _
  split_ifs with htrue
  · obtain ⟨n, hn⟩ := hguard.mp htrue
    rw [hcast, hn]
    exact castTo_bigint n
  · split
    · next n hn => exact absurd (hguard.mpr ⟨n, hn⟩) htrue
    · rfl

theorem eval_error {e : SqlError} (hfield : (postgres build).field object filter.key = .error e) :
    (buildClause (postgres build).names filter.value).eval (postgres build) otherInteger object
      filter.key = .error e := by
  have htypeof (a : SqlExpr) :
      (SqlExpr.eq .typeof a).eval (postgres build) otherInteger object filter.key = .error e := by
    rw [SqlExpr.eval, SqlExpr.eval, hfield]
    rfl
  have hand (a b : SqlExpr) :
      (SqlExpr.and (.eq .typeof a) b).eval (postgres build) otherInteger object filter.key =
        .error e := by
    rw [SqlExpr.eval, htypeof]
    rfl
  cases filter.value with
  | null => exact htypeof _
  | bool b | str s => exact hand _ _
  | int i =>
    have hcase : guardedCast.eval (postgres build) otherInteger object filter.key = .error e := by
      rw [guardedCast, SqlExpr.eval, hand]
      rfl
    change (SqlExpr.eq guardedCast _).eval _ _ _ _ = _
    rw [SqlExpr.eval, hcase]
    rfl

theorem field_postgres (h : unreadableItems object.items = false) :
    (postgres build).field object key = .ok (object.get key) := by
  unfold postgres
  simp only [h, Bool.false_eq_true, if_false]

theorem postgres_selects (h : Readable object filter) :
    filter.selects (postgres build) otherInteger object = .ok (object.holds filter) := by
  have hfield : (postgres build).field object filter.key = _ := field_postgres h.stored
  cases hvalue : filter.value with
  | null => exact selects_null hfield (fun x => (typeof_postgres x).1) hvalue
  | bool b =>
    have heval : (buildClause (postgres build).names filter.value).eval (postgres build) otherInteger
        object filter.key = .ok (sqlAnd (typeIs (postgres build) (object.get filter.key) "boolean")
          (sqlEq (((object.get filter.key).map (postgres build).extract).getD .null)
            (.text (codes (if b then "true" else "false").toList)))) := by
      rw [hvalue]
      exact eval_and (eval_typeIs hfield _) (eval_eq (eval_extract hfield) rfl)
    refine selects_of_eval heval ?_
    rw [sqlAnd_true, typeIs_true, sqlEq_true, holds_iff, hvalue]
    constructor
    · rintro ⟨⟨x, hx, htype⟩, heq, -⟩
      obtain ⟨c, rfl⟩ := (typeof_postgres x).2.1.mp htype
      rw [hx] at heq
      have hsame : c = b := by
        have htext := codes_inj.mp (SqlValue.text.inj heq)
        revert htext
        cases b <;> cases c <;> decide
      exact .inr (.inl ⟨b, hsame ▸ hx, rfl⟩)
    · rintro (⟨-, h⟩ | ⟨c, hc, h⟩ | ⟨n, -, h⟩ | ⟨t, -, h⟩)
      · cases h
      · obtain rfl := FilterValue.bool.inj h
        rw [hc]
        refine ⟨⟨_, rfl, rfl⟩, ?_, ?_⟩
        · cases b <;> rfl
        · exact SqlValue.noConfusion
      · cases h
      · cases h
  | int i =>
    have hcast : ∃ y, guardedCast.eval (postgres build) otherInteger object filter.key = .ok y ∧
        ∀ n, y = .int n ↔ object.get filter.key = some (.int n) := by
      rw [eval_guardedCast hfield]
      split
      · next n hn =>
        rw [if_pos (h.bigint i n hvalue hn)]
        refine ⟨_, rfl, fun m => ?_⟩
        simp [hn]
      · next hother =>
        refine ⟨_, rfl, fun m => ⟨fun hnull => ?_, fun hm => absurd hm (hother m)⟩⟩
        cases hnull
    obtain ⟨y, hy, hint⟩ := hcast
    have heval : (buildClause (postgres build).names filter.value).eval (postgres build) otherInteger
        object filter.key = .ok (sqlEq y (.int i)) := by
      rw [hvalue]
      exact eval_eq hy rfl
    refine selects_of_eval heval ?_
    rw [sqlEq_true, holds_iff, hvalue]
    constructor
    · rintro ⟨heq, -⟩
      exact .inr (.inr (.inl ⟨i, (hint i).mp heq, rfl⟩))
    · rintro (⟨-, h⟩ | ⟨b, -, h⟩ | ⟨n, hn, h⟩ | ⟨t, -, h⟩)
      · cases h
      · cases h
      · obtain rfl := FilterValue.int.inj h
        rw [(hint i).mpr hn]
        exact ⟨rfl, SqlValue.noConfusion⟩
      · cases h
  | str s =>
    obtain ⟨hpaired, hzero⟩ := unreadable_eq_false (h.given s hvalue)
    have hbind : (postgres build).bind (.str s) = .ok (.text s) := by
      unfold postgres
      simp only [hpaired, hzero, Bool.false_eq_true, if_false]
    exact selects_str hfield (fun x => (typeof_postgres x).2.2.1) (fun t _ => rfl) hbind hvalue

/-- A stored integer beyond 64 bits cannot be cast. -/
theorem eval_outOfRange {i n : Int} (hobject : unreadableItems object.items = false)
    (hvalue : filter.value = .int i) (hn : object.get filter.key = some (.int n))
    (hrange : ¬ (int64Min ≤ n ∧ n ≤ int64Max)) :
    (buildClause (postgres build).names filter.value).eval (postgres build) otherInteger object
      filter.key = .error .outOfRange := by
  have hcast : guardedCast.eval (postgres build) otherInteger object filter.key =
      .error .outOfRange := by
    rw [eval_guardedCast (field_postgres hobject), hn]
    exact if_neg hrange
  rw [hvalue]
  change (SqlExpr.eq guardedCast _).eval _ _ _ _ = _
  rw [SqlExpr.eval, hcast]
  rfl

theorem bind_error_of_unreadable {s : CodeText} (h : unreadable s = true) :
    ∃ e, (postgres build).bind (.str s) = .error e := by
  unfold postgres
  by_cases hpaired : s.any CodePoint.isSurrogate = true
  · exact ⟨.unicodeEncode, if_pos hpaired⟩
  · obtain ⟨c, hc, hbad⟩ := List.any_eq_true.mp h
    have hzero : (0 : CodePoint) ∈ s := by
      rcases Bool.or_eq_true_iff.mp hbad with hzero | hsurrogate
      · exact of_decide_eq_true hzero ▸ hc
      · exact absurd (List.any_eq_true.mpr ⟨c, hc, hsurrogate⟩) hpaired
    exact ⟨.invalidByteSequence, (if_neg hpaired).trans (if_pos hzero)⟩

/-- PostgreSQL answers only where it can read everything. -/
theorem readable_of_selects {b : Bool}
    (h : filter.selects (postgres build) otherInteger object = .ok b) : Readable object filter := by
  have herror (e : SqlError) : (buildClause (postgres build).names filter.value).eval
      (postgres build) otherInteger object filter.key ≠ .error e := by
    intro heval
    rw [JsonMatch.selects, heval] at h
    cases h
  have hobject : unreadableItems object.items = false := by
    by_contra hunreadable
    refine herror .unsupportedUnicode (eval_error ?_)
    unfold postgres
    simp only [eq_true_of_ne_false hunreadable, if_true]
  have hfield : (postgres build).field object filter.key = _ := field_postgres hobject
  refine ⟨hobject, fun s hvalue => ?_, fun i n hvalue hn => ?_⟩
  · by_contra hunreadable
    obtain ⟨e, hbind⟩ : ∃ e, (postgres build).bind (.str s) = .error e :=
      bind_error_of_unreadable (eq_true_of_ne_false hunreadable)
    have hequal : (SqlExpr.eq .extract (.param (.str s))).eval (postgres build) otherInteger object
        filter.key = .error e := by
      rw [SqlExpr.eval, eval_extract hfield]
      change ((postgres build).bind (.str s) >>= _) = _
      rw [hbind]
      rfl
    refine herror e ?_
    rw [hvalue]
    change (SqlExpr.and (.eq .typeof (.literal "string")) _).eval _ _ _ _ = _
    rw [SqlExpr.eval, eval_typeIs hfield]
    change ((SqlExpr.eq .extract (.param (.str s))).eval (postgres build) otherInteger object
      filter.key >>= _) = _
    rw [hequal]
    rfl
  · by_contra hrange
    exact herror .outOfRange (eval_outOfRange hobject hvalue hn hrange)

end Postgres

/-- SQLite looks the key up, unless it ends with a newline and labels are not read. -/
theorem field_sqlite {build : DatabaseBuild} {object : MetadataObject} {key : String} :
    ((sqlite build).field object key = .ok (object.get key) ∧
      (build.readsLabels = true ∨ '\n' ∉ key.toList)) ∨
    ((sqlite build).field object key = .ok none ∧
      ¬ (build.readsLabels = true ∨ '\n' ∉ key.toList)) := by
  by_cases hread : build.readsLabels = true ∨ '\n' ∉ key.toList
  · refine .inl ⟨congrArg Except.ok (if_pos ?_), hread⟩
    simpa using hread
  · refine .inr ⟨congrArg Except.ok (if_neg ?_), hread⟩
    simpa using hread

/-- An object with one integer. -/
def integerObject (n : Int) : MetadataObject where
  items := [(⟨codes ['k'], List.isChain_singleton _⟩, .int n)]
  unique := List.nodup_singleton _

def integerFilter (n : Int)
    (h : validateMetadataFilterValue (.int n : FilterValue CodeText) = true) : JsonMatch where
  key := "k"
  value := .int n
  validKey := by decide
  validValue := h

def anyBuild : DatabaseBuild := ⟨fun _ => [], true⟩

end DeerFlow.Persistence
