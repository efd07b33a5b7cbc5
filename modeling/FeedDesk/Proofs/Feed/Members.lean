import FeedDesk.Proofs.Feed.Wire

/-!
# Members of an item

An item is read from an object by its members' names alone: the order of the members, and members
of other names, make no difference. A missing member counts as its default, apart from the
address, which must be given.
-/
namespace FeedDesk.Item

open Number

def decode? (text : String) : Option Item := (Json.parse? text).bind ofJson?

/-- What an item says under one of its members' names. -/
inductive Field where
  | text (s : String)
  | status (s : ItemStatus)
  | integer (n : Int64)
  | megabytes (x : Binary64)
  | half (n : UInt32)

def field? (item : Item) : String → Option Field
  | "URL" => some (.text item.url)
  | "Title" => some (.text item.title)
  | "Filename" => some (.text item.filename)
  | "Status" => some (.status item.status)
  | "Category" => some (.text item.category)
  | "Time" => some (.integer item.time)
  | "SizeMB" => some (.megabytes item.sizeMb)
  | "SizeLo" => some (.half item.sizeLow)
  | "SizeHi" => some (.half item.sizeHigh)
  | "AddCategory" => some (.text item.addCategory)
  | "Match" => some (.text item.matchKind)
  | "Rule" => some (.integer item.rule)
  | "DupeKey" => some (.text item.dupeKey)
  | "DupeScore" => some (.integer item.dupeScore)
  | "DupeMode" => some (.text item.dupeMode)
  | _ => none

def bare (url : String) : Item := { url := url }

def readField? : String → Json → Option Field
  | "URL", v | "Title", v | "Filename", v | "Category", v | "AddCategory", v | "Match", v
  | "DupeKey", v | "DupeMode", v => v.asString?.map .text
  | "Status", v => (ItemStatus.ofJson? v).map .status
  | "Time", v | "Rule", v | "DupeScore", v => v.asInt64?.map .integer
  | "SizeMB", v => v.asBinary64?.map .megabytes
  | "SizeLo", v | "SizeHi", v => (sizeHalf? v).map .half
  | _, _ => none

/-- The field that comes of what is given under a name: the default if nothing is given. The
address has no default. -/
def fieldOf? (name : String) : Option Json → Option Field
  | some v => readField? name v
  | none => if name = "URL" then none else (bare "").field? name

/-- The value that is written under a name for an item that has only an address. -/
def defaultMember? (name : String) : Option Json :=
  (Record.ofJson? memberNames (bare "").toJson).bind (·.get? name)

/-! ## Records of items -/

/-- Members that are left out may as well be given, with what is written for their defaults. -/
theorem ofRecord?_filled {r r' : Record}
    (h : ∀ name ∈ memberNames, r'.get? name = r.get? name ∨
      name ≠ "URL" ∧ r.get? name = none ∧ r'.get? name = defaultMember? name) :
    ofRecord? r' = ofRecord? r := by
  have hrequired (read : Json → Option String) :
      r'.required "URL" read = r.required "URL" read := by
    obtain heq | ⟨hne, -⟩ := h "URL" (by decide)
    · rw [Record.required, Record.required, heq]
    · exact absurd rfl hne
  have hdefault {α : Type} (name : String) (default : α) (read : Json → Option α)
      (hname : name ∈ memberNames) (hread : (defaultMember? name).bind read = some default) :
      r'.withDefault name default read = r.withDefault name default read := by
    obtain heq | ⟨-, hnone, hsome⟩ := h name hname
    · rw [Record.withDefault, Record.withDefault, heq]
    · obtain ⟨v, hv, hread⟩ := Option.bind_eq_some_iff.mp hread
      rw [hv] at hsome
      simp only [Record.withDefault, hnone, hsome, hread]
  have hsize : (defaultMember? "SizeMB").bind Json.asBinary64? = some (.zero false) := by
    decide +kernel
  simp (disch := first | decide | rfl) only [ofRecord?, hrequired, hdefault,
    hdefault "SizeMB" _ _ (by decide) hsize]

section

variable {r : Record}

theorem required_eq_some_iff {value : String} :
    r.required "URL" Json.asString? = some value ↔
      some (.text value) = fieldOf? "URL" (r.get? "URL") := by
  rw [Record.required]
  cases r.get? "URL" with
  | none => simp [fieldOf?]
  | some v => simp [fieldOf?, readField?, eq_comm]

/-- A member with a default is read like the field of its name. -/
theorem withDefault_eq_some_iff {α : Type} (wrap : α → Field) (read : Json → Option α)
    (default : α) (hwrap : ∀ a b, wrap a = wrap b → a = b) (name : String) (value : α)
    (hread : readField? name = fun v => (read v).map wrap)
    (hdefault : fieldOf? name none = some (wrap default)) :
    r.withDefault name default read = some value ↔
      some (wrap value) = fieldOf? name (r.get? name) := by
  rw [Record.withDefault]
  cases r.get? name with
  | none =>
    rw [hdefault, Option.some_inj, Option.some_inj]
    exact ⟨fun h => h ▸ rfl, fun h => (hwrap _ _ h).symm⟩
  | some v =>
    have hmap : fieldOf? name (some v) = (read v).map wrap := congrFun hread v
    rw [hmap, eq_comm (a := some (wrap value)), Option.map_eq_some_iff]
    constructor
    · exact fun h => ⟨value, h, rfl⟩
    · rintro ⟨a, h, ha⟩
      exact hwrap _ _ ha ▸ h

/-- The item of a record is the one whose fields come of what the record gives under their
names. -/
theorem ofRecord?_eq_some_iff {item : Item} :
    ofRecord? r = some item ↔
      ∀ name ∈ memberNames, item.field? name = fieldOf? name (r.get? name) := by
  have text (name : String) {value : String} :=
    withDefault_eq_some_iff (r := r) .text Json.asString? "" (by simp) name value
  have integer (name : String) {value : Int64} :=
    withDefault_eq_some_iff (r := r) .integer Json.asInt64? 0 (by simp) name value
  have half (name : String) {value : UInt32} :=
    withDefault_eq_some_iff (r := r) .half sizeHalf? 0 (by simp) name value
  have status {value : ItemStatus} :=
    withDefault_eq_some_iff (r := r) .status ItemStatus.ofJson? .unknown (by simp) "Status" value
      rfl rfl
  have megabytes {value : Binary64} :=
    withDefault_eq_some_iff (r := r) .megabytes Json.asBinary64? (.zero false) (by simp) "SizeMB"
      value rfl rfl
  simp only [memberNames, List.forall_mem_cons]
  constructor
  · intro h
    rw [ofRecord?] at h
    obtain ⟨url, hurl, h⟩ := Option.bind_eq_some_iff.mp h
    obtain ⟨title, htitle, h⟩ := Option.bind_eq_some_iff.mp h
    obtain ⟨filename, hfilename, h⟩ := Option.bind_eq_some_iff.mp h
    obtain ⟨itemStatus, hstatus, h⟩ := Option.bind_eq_some_iff.mp h
    obtain ⟨category, hcategory, h⟩ := Option.bind_eq_some_iff.mp h
    obtain ⟨time, htime, h⟩ := Option.bind_eq_some_iff.mp h
    obtain ⟨sizeMb, hsizeMb, h⟩ := Option.bind_eq_some_iff.mp h
    obtain ⟨sizeLow, hsizeLow, h⟩ := Option.bind_eq_some_iff.mp h
    obtain ⟨sizeHigh, hsizeHigh, h⟩ := Option.bind_eq_some_iff.mp h
    obtain ⟨addCategory, haddCategory, h⟩ := Option.bind_eq_some_iff.mp h
    obtain ⟨matchKind, hmatchKind, h⟩ := Option.bind_eq_some_iff.mp h
    obtain ⟨rule, hrule, h⟩ := Option.bind_eq_some_iff.mp h
    obtain ⟨dupeKey, hdupeKey, h⟩ := Option.bind_eq_some_iff.mp h
    obtain ⟨dupeScore, hdupeScore, h⟩ := Option.bind_eq_some_iff.mp h
    obtain ⟨dupeMode, hdupeMode, h⟩ := Option.bind_eq_some_iff.mp h
    obtain rfl := Option.some.inj h
    exact ⟨required_eq_some_iff.mp hurl, (text "Title" rfl rfl).mp htitle,
      (text "Filename" rfl rfl).mp hfilename, status.mp hstatus,
      (text "Category" rfl rfl).mp hcategory, (integer "Time" rfl rfl).mp htime,
      megabytes.mp hsizeMb, (half "SizeLo" rfl rfl).mp hsizeLow,
      (half "SizeHi" rfl rfl).mp hsizeHigh, (text "AddCategory" rfl rfl).mp haddCategory,
      (text "Match" rfl rfl).mp hmatchKind, (integer "Rule" rfl rfl).mp hrule,
      (text "DupeKey" rfl rfl).mp hdupeKey, (integer "DupeScore" rfl rfl).mp hdupeScore,
      (text "DupeMode" rfl rfl).mp hdupeMode, by simp⟩
  · rintro ⟨hurl, htitle, hfilename, hstatus, hcategory, htime, hsizeMb, hsizeLow, hsizeHigh,
      haddCategory, hmatchKind, hrule, hdupeKey, hdupeScore, hdupeMode, -⟩
    simp only [ofRecord?, required_eq_some_iff.mpr hurl, (text "Title" rfl rfl).mpr htitle,
      (text "Filename" rfl rfl).mpr hfilename, status.mpr hstatus,
      (text "Category" rfl rfl).mpr hcategory, (integer "Time" rfl rfl).mpr htime,
      megabytes.mpr hsizeMb, (half "SizeLo" rfl rfl).mpr hsizeLow,
      (half "SizeHi" rfl rfl).mpr hsizeHigh, (text "AddCategory" rfl rfl).mpr haddCategory,
      (text "Match" rfl rfl).mpr hmatchKind, (integer "Rule" rfl rfl).mpr hrule,
      (text "DupeKey" rfl rfl).mpr hdupeKey, (integer "DupeScore" rfl rfl).mpr hdupeScore,
      (text "DupeMode" rfl rfl).mpr hdupeMode]
    rfl

end

/-- Items that have only an address differ in nothing else. -/
theorem field?_bare {name : String} (hne : name ≠ "URL") (url url' : String) :
    (bare url).field? name = (bare url').field? name := by
  unfold field?
  split <;> first | rfl | exact absurd rfl hne

/-- The fields of an item whose members the record does not give are the defaults. -/
theorem field?_of_ofRecord? {r : Record} {item : Item} (h : ofRecord? r = some item)
    {name : String} (hname : name ∈ memberNames) (hmissing : r.get? name = none) :
    item.field? name = (bare item.url).field? name := by
  by_cases hne : name = "URL"
  · subst hne
    rfl
  · rw [ofRecord?_eq_some_iff.mp h name hname, hmissing, fieldOf?, if_neg hne]
    exact field?_bare hne "" item.url

/-! ## Objects of items -/

variable {ms ms' : List (Option String × Json)}

theorem ofJson?_twice {name : String} (hname : name ∈ memberNames)
    (h : 1 < (Record.given ms name).length) : ofJson? (.object ms) = none := by
  rw [ofJson?, Record.ofJson?_twice hname h, Option.bind_none]

/-- The item of an object comes from a record of what the object gives. -/
theorem exists_record (hms : ∀ m ∈ ms, m.1.isSome) {item : Item}
    (h : ofJson? (.object ms) = some item) :
    ∃ r, ofRecord? r = some item ∧
      ∀ name ∈ memberNames, r.get? name = (Record.given ms name).head? := by
  by_cases honce : ∀ name ∈ memberNames, (Record.given ms name).length ≤ 1
  · obtain ⟨r, hr, hget⟩ := Record.ofJson?_once hms honce
    rw [ofJson?, hr, Option.bind_some] at h
    exact ⟨r, h, hget⟩
  · simp only [not_forall, not_le] at honce
    obtain ⟨name, hname, htwice⟩ := honce
    rw [ofJson?_twice hname htwice] at h
    cases h

/-- Two objects are read alike if they give the same under each declared name, apart from
defaults that one of them leaves out. -/
theorem ofJson?_filled (hms : ∀ m ∈ ms, m.1.isSome) (hms' : ∀ m ∈ ms', m.1.isSome)
    (h : ∀ name ∈ memberNames, Record.given ms' name = Record.given ms name ∨
      name ≠ "URL" ∧ Record.given ms name = [] ∧
        Record.given ms' name = (defaultMember? name).toList) :
    ofJson? (.object ms') = ofJson? (.object ms) := by
  by_cases honce : ∀ name ∈ memberNames, (Record.given ms name).length ≤ 1
  · have honce' : ∀ name ∈ memberNames, (Record.given ms' name).length ≤ 1 := by
      intro name hname
      obtain heq | ⟨-, -, heq⟩ := h name hname
      · rw [heq]
        exact honce name hname
      · rw [heq]
        cases defaultMember? name <;> simp
    obtain ⟨r, hr, hget⟩ := Record.ofJson?_once hms honce
    obtain ⟨r', hr', hget'⟩ := Record.ofJson?_once hms' honce'
    rw [ofJson?, ofJson?, hr, hr', Option.bind_some, Option.bind_some]
    refine ofRecord?_filled fun name hname => ?_
    rw [hget name hname, hget' name hname]
    obtain heq | ⟨hne, hnone, heq⟩ := h name hname
    · exact .inl (by rw [heq])
    · exact .inr ⟨hne, by rw [hnone]; rfl, by rw [heq]; cases defaultMember? name <;> rfl⟩
  · simp only [not_forall, not_le] at honce
    obtain ⟨name, hname, htwice⟩ := honce
    obtain heq | ⟨-, hnone, -⟩ := h name hname
    · rw [ofJson?_twice hname htwice, ofJson?_twice hname (heq ▸ htwice)]
    · rw [hnone] at htwice
      exact absurd htwice (by decide)

section

variable (hnames : ∀ m ∈ ms, m.1.isSome) {name : String}

include hnames

theorem ofJson?_inOrder :
    ofJson? (.object (Record.inOrder memberNames ms)) = ofJson? (.object ms) := by
  refine ofJson?_filled hnames (fun m hm => hnames m (Record.mem_of_mem_inOrder hm))
    fun name hname => .inl ?_
  rw [Record.given_inOrder memberNames_nodup, if_pos hname]

theorem ofJson?_unaddressed (hmissing : some "URL" ∉ ms.map Prod.fst) :
    ofJson? (.object ms) = none := by
  refine Option.eq_none_iff_forall_ne_some.mpr fun item hitem => ?_
  obtain ⟨r, hr, hget⟩ := exists_record hnames hitem
  have hurl := hget "URL" (by decide)
  rw [Record.given_eq_nil hmissing] at hurl
  rw [ofRecord?, Record.required, hurl] at hr
  cases hr

theorem ofJson?_cons_default {v : Json} (hne : name ≠ "URL") (hv : defaultMember? name = some v)
    (hmissing : some name ∉ ms.map Prod.fst) :
    ofJson? (.object ((some name, v) :: ms)) = ofJson? (.object ms) := by
  have hnames' : ∀ m ∈ (some name, v) :: ms, m.1.isSome := List.forall_mem_cons.mpr ⟨rfl, hnames⟩
  refine ofJson?_filled hnames hnames' fun other hother => ?_
  by_cases heq : other = name
  · subst heq
    have hnone := Record.given_eq_nil hmissing
    exact .inr ⟨hne, hnone, by rw [Record.given_cons_self, hnone, hv]; rfl⟩
  · exact .inl (Record.given_cons_of_ne (by simpa using Ne.symm heq))

theorem field?_of_missing {item : Item} (h : ofJson? (.object ms) = some item)
    (hname : name ∈ memberNames) (hmissing : some name ∉ ms.map Prod.fst) :
    item.field? name = (bare item.url).field? name := by
  obtain ⟨r, hr, hget⟩ := exists_record hnames h
  refine field?_of_ofRecord? hr hname ?_
  rw [hget name hname, Record.given_eq_nil hmissing]
  rfl

end

/-! ## Texts of items -/

/-- How the members of an object count for what is decoded from its text. -/
structure ReadsByName (ms : List (Option String × Json)) (decoded : Option Item) : Prop where
  /-- Only the declared members count, and their order does not. -/
  inOrder : decoded = decode? (Json.render (.object (Record.inOrder memberNames ms)))
  /-- The text of the declared members in declaration order holds them. -/
  written : Json.parse? (Json.render (.object (Record.inOrder memberNames ms))) =
    some (.object (Record.inOrder memberNames ms))
  /-- No declared member is given twice. -/
  twice : ∀ name ∈ memberNames, 1 < (ms.map Prod.fst).count (some name) → decoded = none
  /-- The address has no default. -/
  address : some "URL" ∉ ms.map Prod.fst → decoded = none
  /-- Another member that is missing might as well be given, with what is written for its default. -/
  missing : ∀ name ∈ memberNames, name ≠ "URL" → some name ∉ ms.map Prod.fst →
    ∃ v, defaultMember? name = some v ∧
      decoded = decode? (Json.render (.object ((some name, v) :: ms)))
  /-- The field of a member that is missing is the default. -/
  default : ∀ item, decoded = some item → ∀ name ∈ memberNames, some name ∉ ms.map Prod.fst →
    item.field? name = (bare item.url).field? name

theorem decode?_render (h : ∀ m ∈ ms, m.2.Legible) :
    decode? (Json.render (.object ms)) = ofJson? (.object ms) := by
  rw [decode?, Json.parse?_render (.object h), Option.bind_some]

theorem exists_defaultMember? {name : String} (hname : name ∈ memberNames) :
    ∃ v, defaultMember? name = some v ∧ v.Legible := by
  have hall : ∀ name ∈ memberNames, (defaultMember? name).isSome := by decide +kernel
  obtain ⟨v, hv⟩ := Option.isSome_iff_exists.mp (hall name hname)
  obtain ⟨r, hr, hget⟩ := Option.bind_eq_some_iff.mp hv
  have hbare : (bare "").toJson.Legible := legible_toJson (Binary64.isWhole_zero false _)
  rw [toJson, Json.ofMembers] at hr hbare
  cases hbare with
  | object hms => exact ⟨v, hv, hms _ (Record.mem_of_get? hr hget)⟩

/-- What is decoded from an object depends on the declared members alone, by their names. -/
theorem decode?_object (text : String) (ms : List (Option String × Json))
    (h : Json.parse? text = some (.object ms)) (hnames : ∀ m ∈ ms, m.1.isSome) :
    ReadsByName ms (decode? text) := by
  have hlegible : ∀ m ∈ ms, m.2.Legible := by
    cases Json.legible_of_parse? h with
    | object hms => exact hms
  have hinOrder : ∀ m ∈ Record.inOrder memberNames ms, m.2.Legible :=
    fun m hm => hlegible m (Record.mem_of_mem_inOrder hm)
  rw [decode?, h, Option.bind_some]
  refine ⟨?_, Json.parse?_render (.object hinOrder), ?_, ofJson?_unaddressed hnames, ?_, ?_⟩
  · rw [decode?_render hinOrder, ofJson?_inOrder hnames]
  · intro name hname htwice
    exact ofJson?_twice hname (Record.length_given ms name ▸ htwice)
  · intro name hname hne hmissing
    obtain ⟨v, hv, hwritten⟩ := exists_defaultMember? hname
    refine ⟨v, hv, ?_⟩
    rw [decode?_render (List.forall_mem_cons.mpr ⟨hwritten, hlegible⟩),
      ofJson?_cons_default hnames hne hv hmissing]
  · intro item hitem name hname hmissing
    exact field?_of_missing hnames hitem hname hmissing

/-- Members out of order, among others whose names differ in case. -/
def jumbledMembers : List (Option String × Json) :=
  [(some "Rule", .ofInt 7), (some "url", .array [.array [.object [(some "Title", .null)]]]),
    (some "URL", .ofString "u"), (some "url", .ofInt 2), (some "Time", .ofInt (-1))]

def jumbled : String :=
  "\x7b\"Rule\":7,\"url\":[[\x7b\"Title\":null\x7d]],\"URL\":\"u\",\"url\":2,\"Time\":-1\x7d"

theorem parse?_jumbled : Json.parse? jumbled = some (.object jumbledMembers) := by
  have hwritten : Json.render (.object jumbledMembers) = jumbled := by decide +kernel
  have hdeep : (Json.array [.array [.object [(some "Title", .null)]]]).Legible :=
    .array (List.forall_mem_singleton.mpr (.array (List.forall_mem_singleton.mpr
      (.object (List.forall_mem_singleton.mpr .null)))))
  rw [← hwritten]
  refine Json.parse?_render (.object ?_)
  simp [jumbledMembers, Json.legible_ofInt, Json.legible_ofString, hdeep]

theorem jumbled_readsByName :
    Json.parse? jumbled = some (.object jumbledMembers) ∧ (∀ m ∈ jumbledMembers, m.1.isSome) ∧
      ReadsByName jumbledMembers (decode? jumbled) ∧
      decode? jumbled = some { url := "u", time := -1, rule := 7 } := by
  have hnames : ∀ m ∈ jumbledMembers, m.1.isSome := by simp [jumbledMembers]
  refine ⟨parse?_jumbled, hnames, decode?_object jumbled jumbledMembers parse?_jumbled hnames, ?_⟩
  rw [decode?, parse?_jumbled]
  decide +kernel

end FeedDesk.Item
