/-
AnimLint/Proofs/Pages.lean

Findings page by page.  A client of the tool asks for the page at an offset, and
as long as there are more findings for the one behind it (`Walks`).  A page
holds the findings from its offset on, as many as fit, and says that there are
more if one is left (`Page.Shows`); so a walk that starts at the first finding,
with room for one on a page, ends (`walks_of_ask`), and has then seen all
findings once, in order (`Walks.seen_eq`).

Each request looks at the scripts anew and may meet their comments in another
order.  Where the scripts are settled, all requests are answered from one list
(`analyze_visit`), and only there do the pages of a walk fit together.

The numbers in a request have four bytes, so through the tool itself a walk is
sure to end as long as four bytes tell all findings apart.  Main statement:
`Service.scan_pages`.
-/
import AnimLint.Proofs.Preview
import AnimLint.Service.Tools

namespace AnimLint

open Files

/-! ### The order of findings -/

theorem thenBy_eq_then (a b : Ordering) : thenBy a b = a.then b := by
  cases a <;> rfl

/-- Two sides in order. -/
def Side.number : Side → Nat
  | .leading => 0
  | .trailing => 1

theorem Side.order_eq_compare (a b : Side) : a.order b = compareOn Side.number a b := by
  cases a <;> cases b <;> rfl

theorem Finding.order_eq_compareLex (a b : Finding) :
    a.order b = compareLex (compareOn Finding.file) (compareLex (compareOn Finding.line)
      (compareLex (compareOn Finding.column)
        (compareOn fun f => f.side.number))) a b := by
  simp only [Finding.order, thenBy_eq_then, Side.order_eq_compare]
  rfl

theorem Finding.transCmp_order : Std.TransCmp Finding.order := by
  rw [funext fun a => funext fun b => Finding.order_eq_compareLex a b]
  infer_instance

/-- Findings come in order of place. -/
theorem FindingMap.pairwise_findings (files : FindingMap) :
    files.findings.Pairwise fun a b => a.order b ≠ .gt := by
  have := Finding.transCmp_order
  have hle {a b : Finding} : (a.order b != .gt) = true ↔ (a.order b).isLE = true := by
    rw [bne_iff_ne, ne_eq, Ordering.isLE_iff_ne_gt]
  refine (pairwise_sortBy (fun a b => ?_) (fun a b c hab hbc => ?_) _).imp bne_iff_ne.1
  · have hswap : b.order a = (a.order b).swap := Std.OrientedCmp.eq_swap
    rw [hle, hle, hswap]
    cases a.order b <;> decide
  · exact hle.2 (Std.TransCmp.isLE_trans (hle.1 hab) (hle.1 hbc))

/-! ### Requests and pages -/

/-- The field of an object with a given name. -/
def Json.field? (name : String) : Json → Option Json
  | .object fields => fields.lookup name
  | _ => none

namespace Service

/-- What a client takes from an answer. -/
structure Page where
  items : List Json
  more : Bool
  total : Json
  fixable : Json

/-- The page in an answer. -/
def Page.ofAnswer? (answer : Json) : Option Page :=
  match answer.field? "items", (answer.field? "pagination").bind (·.field? "hasMore"),
    answer.field? "totalCount", answer.field? "fixableCount" with
  | some (.array items), some (.bool more), some total, some fixable =>
    some ⟨items, more, total, fixable⟩
  | _, _, _, _ => none

/-- The page of findings at an offset. -/
def Page.ofFindings (found : List Finding) (offset size : Nat) : Page where
  items := (page offset size found).map (·.item)
  more := hasMore offset size found
  total := .nat found.length
  fixable := .nat (found.filter (·.isFixable)).length

theorem ofAnswer_scanAnswer (analysis : Analysis) (offset size : Nat) :
    Page.ofAnswer? (scanAnswer analysis offset size) =
      some (.ofFindings analysis.findings.findings offset size) := by
  simp [Page.ofAnswer?, Page.ofFindings, scanAnswer, Json.field?, List.lookup_cons]

/-- What a page is to tell of findings, if they are asked for with a limit and
from an offset on, where either may be left out. -/
structure Page.Shows (found : List Finding) (limit offset : Option Nat)
    (page : Page) : Prop where
  /-- The items are the findings from the offset on, as many as the limit lets
  through. -/
  items : ∀ i, page.items[i]? =
    if i < min (limit.getD 20) 100 then found[offset.getD 0 + i]?.map (·.item) else none
  /-- The end of the page is a number of eight bytes. -/
  stop : offset.getD 0 + page.items.length < 2 ^ 64
  more : page.more = true ↔ ∃ j, offset.getD 0 + page.items.length ≤ j ∧ j < found.length
  total : page.total = .nat found.length
  fixable : page.fixable = .nat (found.filter (·.isFixable)).length

/-- A count in a request, or `null` where the tool is to choose. -/
def ofCount : Option Nat → Json
  | none => .null
  | some n => .nat n

/-- A request for a page of findings. -/
def request (root : String) (limit offset : Option Nat) : Json :=
  .object [(rootField, .string root), ("limit", ofCount limit),
    ("offset", ofCount offset)]

/-- A client asks for the page at an offset; each request has the comments met
in its own order. -/
def ask (fs : FileSystem) (color : Bool) (root : String) (limit : Option Nat)
    (visits : Nat → Visit)
    (offset : Nat) : Option Page :=
  (scan fs color (request root limit (some offset)) (visits offset)).result.toOption.bind
    Page.ofAnswer?

theorem count?_ofCount {asked : Option Nat} (h : ∀ n ∈ asked, n < 2 ^ 32) :
    count? (ofCount asked) = .ok asked := by
  rcases asked with - | n
  · rfl
  · have hin : (0 ≤ (n : Int) && (n : Int) < Nat.pow 2 32) = true := by
      have hn := h n rfl
      simp only [Bool.and_eq_true, decide_eq_true_eq, Nat.pow_eq]
      omega
    rw [ofCount, Json.nat, count?, if_pos hin]
    rfl

theorem count?_ofCount_of_le {n : Nat} (h : 2 ^ 32 ≤ n) :
    count? (ofCount (some n)) = .error (.outOfRange n) := by
  have hout : ¬(0 ≤ (n : Int) && (n : Int) < Nat.pow 2 32) = true := by
    simp only [Bool.and_eq_true, decide_eq_true_eq, Nat.pow_eq]
    omega
  rw [ofCount, Json.nat, count?, if_neg hout]

/-- The fields of a request are read one after the other. -/
theorem read_fields (root : String) (l o : Json) :
    ScanParameters.read
      (.object [(rootField, .string root), ("limit", l), ("offset", o)]) =
      (count? l).bind fun limit =>
        (count? o).map fun offset => ⟨root, limit, offset⟩ := by
  rcases hl : count? l with e | limit
  · simp [ScanParameters.read, readFields, text, rootField, Except.map, bind,
      Except.bind, hl]
  · rcases ho : count? o with e | offset <;>
      simp [ScanParameters.read, readFields, text, rootField, Except.map, bind,
        Except.bind, pure, Except.pure, hl, ho]

/-- A request is read as it is meant, if its numbers have four bytes. -/
theorem read_request (root : String) {limit offset : Option Nat}
    (hlimit : ∀ n ∈ limit, n < 2 ^ 32) (hoffset : ∀ n ∈ offset, n < 2 ^ 32) :
    ScanParameters.read (request root limit offset) = .ok ⟨root, limit, offset⟩ := by
  rw [request, read_fields, count?_ofCount hlimit, count?_ofCount hoffset,
    Except.bind, Except.map]

/-- A request with an offset of more than four bytes is not read. -/
theorem read_request_of_le (root : String) {limit : Option Nat}
    (hlimit : ∀ n ∈ limit, n < 2 ^ 32)
    {offset : Nat} (hoffset : 2 ^ 32 ≤ offset) :
    ScanParameters.read (request root limit (some offset)) =
      .error (.outOfRange offset) := by
  rw [request, read_fields, count?_ofCount hlimit, count?_ofCount_of_le hoffset,
    Except.bind, Except.map]

theorem lt_of_count? {value : Json} {asked : Option Nat} (h : count? value = .ok asked) :
    ∀ n ∈ asked, n < 2 ^ 32 := by
  unfold count? at h
  split at h
  · obtain rfl := Except.ok.inj h
    simp
  · next n =>
    split at h
    · next hin =>
      obtain rfl := Except.ok.inj h
      simp only [Bool.and_eq_true, decide_eq_true_eq, Nat.pow_eq] at hin
      rintro m hm
      obtain rfl := Option.some.inj hm
      omega
    · cases h
  · cases h

/-- What reading a field keeps, reading all fields keeps. -/
theorem readFields_keeps {ρ : Type} {field : ρ → String → Json → Except ParameterError ρ}
    {P : ρ → Prop} (hfield : ∀ r name value r', P r → field r name value = .ok r' → P r')
    {fields : List (String × Json)} {r r' : ρ} (hr : P r)
    (h : readFields field r fields = .ok r') : P r' := by
  induction fields generalizing r with
  | nil => exact Except.ok.inj h ▸ hr
  | cons entry rest ih =>
    rw [readFields] at h
    rcases hstep : field r entry.1 entry.2 with e | next
    · rw [hstep] at h
      cases h
    · rw [hstep] at h
      exact ih (hfield _ _ _ _ hr hstep) h

/-- An offset that is read has four bytes. -/
theorem offset_lt_of_read {parameters : Json} {asked : ScanParameters}
    (h : ScanParameters.read parameters = .ok asked) :
    ∀ n ∈ asked.offset, n < 2 ^ 32 := by
  unfold ScanParameters.read at h
  split at h
  · next fields =>
    obtain ⟨⟨root, limit, offset⟩, hfields, h⟩ := Json.of_bind h
    have hoffset :=
      readFields_keeps (P := fun found => ∀ n ∈ found.2.2, n < 2 ^ 32) ?_ (by simp)
      hfields
    · rcases root with - | root
      · cases h
      · obtain rfl := Except.ok.inj h
        exact hoffset
    · intro r name value r' hr hstep
      split at hstep
      · obtain ⟨root', -, rfl⟩ := Json.of_map hstep
        exact hr
      · split at hstep
        · obtain ⟨n, -, rfl⟩ := Json.of_map hstep
          exact hr
        · split at hstep
          · obtain ⟨n, hn, rfl⟩ := Json.of_map hstep
            exact lt_of_count? hn
          · exact Except.ok.inj hstep ▸ hr
  · next items =>
    split at h
    · cases h
    · obtain ⟨root, -, h⟩ := Json.of_bind h
      split at h
      · cases h
      · obtain ⟨limit, -, h⟩ := Json.of_bind h
        split at h
        · cases h
        · obtain ⟨offset, hoffset, h⟩ := Json.of_bind h
          split at h
          · obtain rfl := Except.ok.inj h
            exact lt_of_count? hoffset
          · cases h
  · cases h

/-! ### Pages of a list -/

variable {found : List Finding}

/-- The items of a page stand at the positions from its offset on, as many as
fit. -/
theorem getElem?_page (offset size i : Nat) :
    (page offset size found)[i]? = if i < size then found[offset + i]? else none := by
  rw [page, List.getElem?_take, List.getElem?_drop]

theorem length_page (offset size : Nat) :
    (page offset size found).length = min size (found.length - offset) := by
  rw [page, List.length_take, List.length_drop]

theorem length_items (offset size : Nat) :
    (Page.ofFindings found offset size).items.length = (page offset size found).length :=
  List.length_map _

/-- More is promised if a finding is left behind the page. -/
theorem hasMore_iff (offset size : Nat) : hasMore offset size found = true ↔
    ∃ j, offset + (page offset size found).length ≤ j ∧ j < found.length := by
  rw [hasMore, decide_eq_true_eq]
  constructor
  · intro h
    exact ⟨_, Nat.le_refl _, h⟩
  · rintro ⟨j, hle, hlt⟩
    omega

theorem shows_ofFindings (limit : Option Nat) {offset : Option Nat}
    (h : offset.getD 0 < 2 ^ 32) :
    (Page.ofFindings found (offset.getD 0) (pageSize limit)).Shows found
      limit offset := by
  constructor
  case items =>
    intro i
    rw [Page.ofFindings, List.getElem?_map, getElem?_page, pageSize, defaultLimit,
      maxLimit]
    split <;> rfl
  case stop =>
    have hsize : pageSize limit ≤ 100 := Nat.min_le_right _ _
    rw [length_items, length_page]
    omega
  case more =>
    rw [length_items]
    exact hasMore_iff _ _
  case total => rfl
  case fixable => rfl

/-- A page and what is left behind it are what is left from its offset on. -/
theorem page_append_drop (offset size : Nat) :
    page offset size found ++ found.drop (offset + (page offset size found).length) =
      found.drop offset := by
  rw [length_page, page]
  by_cases hfull : size ≤ found.length - offset
  · rw [Nat.min_eq_left hfull, ← List.drop_drop, List.take_append_drop]
  · have hall : (found.drop offset).length ≤ size := by
      rw [List.length_drop]
      omega
    have hnone : found.length ≤ offset + (found.length - offset) := by omega
    rw [Nat.min_eq_right (by omega), List.take_of_length_le hall,
      List.drop_eq_nil_of_le hnone, List.append_nil]

/-! ### Walks -/

/-- What a client sees that asks for the page at an offset, and as long as there
are more findings for the one behind it. -/
inductive Walks (ask : Nat → Option Page) : Nat → List Json → Prop
  | last {offset : Nat} {page : Page} (hpage : ask offset = some page)
    (hmore : page.more = false) :
    Walks ask offset page.items
  | next {offset : Nat} {page : Page} {rest : List Json} (hpage : ask offset = some page)
    (hmore : page.more = true) (hrest : Walks ask (offset + page.items.length) rest) :
    Walks ask offset (page.items ++ rest)

/-- A walk that ends has seen all findings from its offset on. -/
theorem Walks.seen_eq {ask : Nat → Option Page} {size : Nat}
    (hask : ∀ offset page, ask offset = some page → page = .ofFindings found offset size)
    {offset : Nat} {seen : List Json} (h : Walks ask offset seen) :
    seen = (found.drop offset).map (·.item) := by
  induction h with
  | @last offset page' hpage hmore =>
    obtain rfl := hask offset page' hpage
    have hend : found.length ≤ offset + (page offset size found).length := by
      simpa [Page.ofFindings, hasMore] using hmore
    rw [← page_append_drop offset size, List.drop_eq_nil_of_le hend, List.append_nil]
    rfl
  | @next offset page' rest hpage hmore _ ih =>
    obtain rfl := hask offset page' hpage
    rw [length_items] at ih
    rw [← page_append_drop offset size, List.map_append, ih]
    rfl

/-- With room for a finding on a page, and an answer for each offset there is, a
walk ends. -/
theorem walks_of_ask {ask : Nat → Option Page} {size : Nat} (hsize : 0 < size)
    (hask : ∀ offset, offset = 0 ∨ offset < found.length →
      ask offset = some (.ofFindings found offset size))
    {offset : Nat} (hoffset : offset = 0 ∨ offset < found.length) :
    Walks ask offset ((found.drop offset).map (·.item)) := by
  -- the findings that are left behind a page are fewer
  induction hleft : found.length - offset using Nat.strong_induction_on
    generalizing offset with
  | _ n ih =>
    rw [← page_append_drop offset size, List.map_append]
    rcases hmore : hasMore offset size found with - | -
    · have hend : found.length ≤ offset + (page offset size found).length := by
        simpa [hasMore] using hmore
      rw [List.drop_eq_nil_of_le hend, List.map_nil, List.append_nil]
      exact .last (hask offset hoffset) hmore
    · have hbehind : offset + (page offset size found).length < found.length :=
        of_decide_eq_true hmore
      have hpos : 0 < (page offset size found).length := by
        rw [length_page]
        omega
      refine .next (hask offset hoffset) hmore ?_
      rw [length_items]
      exact ih _ (by omega) (.inr hbehind) rfl

/-! ### Pages of a project -/

section Project

variable {fs : FileSystem} {color : Bool} {root said : String} {project : Project}

theorem scan_of_read
    (hload : Project.load fs color (some root) false = .ok (project, said))
    {parameters : Json} {limit offset : Option Nat}
    (hread : ScanParameters.read parameters = .ok ⟨root, limit, offset⟩) (visit : Visit) :
    scan fs color parameters visit =
      ⟨fs, .ok (scanAnswer (project.analyze fs visit) (offset.getD 0) (pageSize limit)),
        said ++ project.analysisText color (project.analyze fs visit)⟩ := by
  rw [scan, hread]
  simp only [withProject, hload]

theorem ask_eq (hload : Project.load fs color (some root) false = .ok (project, said))
    {limit : Option Nat} (hlimit : ∀ n ∈ limit, n < 2 ^ 32) (visits : Nat → Visit)
    {offset : Nat} (hoffset : offset < 2 ^ 32) :
    ask fs color root limit visits offset =
      some (.ofFindings (project.analyze fs (visits offset)).findings.findings offset
        (pageSize limit)) := by
  have hsome : ∀ n ∈ some offset, n < 2 ^ 32 := by simpa using hoffset
  have hread := read_request root hlimit hsome
  rw [ask, scan_of_read hload hread]
  exact ofAnswer_scanAnswer _ _ _

/-- Every answer is a page of the findings. -/
theorem page_of_ask
    (hload : Project.load fs color (some root) false = .ok (project, said))
    {limit : Option Nat} (hlimit : ∀ n ∈ limit, n < 2 ^ 32) (visits : Nat → Visit)
    (offset : Nat)
    (page : Page) (h : ask fs color root limit visits offset = some page) :
    page = .ofFindings (project.analyze fs (visits offset)).findings.findings offset
      (pageSize limit) := by
  by_cases hoffset : offset < 2 ^ 32
  · rw [ask_eq hload hlimit visits hoffset] at h
    exact (Option.some.inj h).symm
  · rw [ask, scan, read_request_of_le root hlimit (Nat.le_of_not_lt hoffset)] at h
    cases h

/-- Settled scripts have the same findings each time they are looked at. -/
theorem analyze_visit
    (hload : Project.load fs color (some root) false = .ok (project, said))
    (hscripts : ScriptsSettled fs root 0) (visit visit' : Visit) :
    project.analyze fs visit = project.analyze fs visit' := by
  unfold Project.load at hload
  rcases hsettings : loadSettings fs root with e | loaded
  · simp [hsettings] at hload
  · simp only [Option.getD_some, hsettings] at hload
    obtain ⟨rfl, -⟩ := Prod.mk.inj (Except.ok.inj hload)
    exact checkFiles_visit (fun file hfile text htext =>
      (hscripts loaded hsettings file hfile text htext).settled) visit visit'

theorem pageSize_pos {limit : Option Nat} (h : limit ≠ some 0) : 0 < pageSize limit := by
  rcases limit with - | n
  · decide
  · have hn : n ≠ 0 := fun hn => h (congrArg some hn)
    simp only [pageSize, Option.getD_some, maxLimit]
    omega

section OneList

variable {visits : Nat → Visit} {visit : Visit}

/-- Where all requests have the same findings, the walk through answers sees
them all. -/
theorem walks_scanAnswer_iff
    (hvisits : ∀ offset, project.analyze fs (visits offset) = project.analyze fs visit)
    {limit : Option Nat} (hlimit : limit ≠ some 0) (seen : List Json) :
    Walks (fun offset => Page.ofAnswer?
        (scanAnswer (project.analyze fs (visits offset)) offset
          (pageSize limit))) 0 seen ↔
      seen = (project.analyze fs visit).findings.findings.map (·.item) := by
  have hask (offset : Nat) : Page.ofAnswer?
      (scanAnswer (project.analyze fs (visits offset)) offset (pageSize limit)) =
        some (.ofFindings (project.analyze fs visit).findings.findings offset
          (pageSize limit)) := by
    rw [hvisits]
    exact ofAnswer_scanAnswer _ _ _
  constructor
  · intro hwalks
    exact hwalks.seen_eq fun offset page h =>
      (Option.some.inj ((hask offset).symm.trans h)).symm
  · rintro rfl
    exact walks_of_ask (pageSize_pos hlimit) (fun offset _ => hask offset) (.inl rfl)

/-- Where all requests have the same findings, a client that walks to the end
has seen them all. -/
theorem seen_eq_of_walks
    (hload : Project.load fs color (some root) false = .ok (project, said))
    (hvisits : ∀ offset, project.analyze fs (visits offset) = project.analyze fs visit)
    {limit : Option Nat} (hfour : ∀ n ∈ limit, n < 2 ^ 32) {seen : List Json}
    (h : Walks (ask fs color root limit visits) 0 seen) :
    seen = (project.analyze fs visit).findings.findings.map (·.item) := by
  have hask (offset : Nat) (page : Page)
      (hpage : ask fs color root limit visits offset = some page) :
      page = .ofFindings (project.analyze fs visit).findings.findings offset
        (pageSize limit) := by
    rw [page_of_ask hload hfour visits offset page hpage, hvisits]
  exact h.seen_eq hask

/-- Where all requests have the same findings, and four bytes tell them apart, a
client walks to the end. -/
theorem walks_ask (hload : Project.load fs color (some root) false = .ok (project, said))
    (hvisits : ∀ offset, project.analyze fs (visits offset) = project.analyze fs visit)
    {limit : Option Nat} (hlimit : limit ≠ some 0) (hfour : ∀ n ∈ limit, n < 2 ^ 32)
    (hfound : (project.analyze fs visit).findings.findings.length ≤ 2 ^ 32) :
    Walks (ask fs color root limit visits) 0
      ((project.analyze fs visit).findings.findings.map (·.item)) := by
  refine walks_of_ask (pageSize_pos hlimit) (fun offset hoffset => ?_) (.inl rfl)
  have hlt : offset < 2 ^ 32 := by
    rcases hoffset with rfl | hlt
    · decide
    · exact Nat.lt_of_lt_of_le hlt hfound
  rw [ask_eq hload hfour visits hlt, hvisits]
  rfl

end OneList

/-- **Pages part the findings.**  Each request for a project is answered from a
list that has the findings in order.  A page holds those from the offset on, up
to the limit; it says there are more if one is left, and its counts are those of
the list.  As the scripts are looked at anew for each request, the list is the
same for all requests where the scripts are settled; and where it is, a walk
ends and has seen all findings once, in order. -/
theorem scan_pages
    (hload : Project.load fs color (some root) false = .ok (project, said)) :
    let found (visit : Visit) := (project.analyze fs visit).findings.findings
    (∀ visit, (found visit).Perm ((project.analyze fs visit).findings.flatMap (·.2)) ∧
        (found visit).Pairwise fun a b => a.order b ≠ .gt) ∧
      (∀ visit parameters limit offset, ScanParameters.read parameters =
        .ok ⟨root, limit, offset⟩ →
        ∃ answer page, (scan fs color parameters visit).result = .ok answer ∧
          (scan fs color parameters visit).files = fs ∧
          Page.ofAnswer? answer = some page ∧
          page.Shows (found visit) limit offset) ∧
      (∀ limit offset : Option Nat, (∀ n ∈ limit, n < 2 ^ 32) →
        (∀ n ∈ offset, n < 2 ^ 32) →
        ScanParameters.read (request root limit offset) = .ok ⟨root, limit, offset⟩) ∧
      (ScriptsSettled fs root 0 →
        ∀ visit visit', project.analyze fs visit = project.analyze fs visit') ∧
      ∀ (visits : Nat → Visit) (visit : Visit),
        (∀ offset, project.analyze fs (visits offset) = project.analyze fs visit) →
        ∀ limit : Option Nat, limit ≠ some 0 →
          (∀ seen, Walks (fun offset => Page.ofAnswer?
              (scanAnswer (project.analyze fs (visits offset)) offset
                (pageSize limit))) 0 seen ↔
            seen = (found visit).map (·.item)) ∧
          ((∀ n ∈ limit, n < 2 ^ 32) →
            (∀ seen, Walks (ask fs color root limit visits) 0 seen →
              seen = (found visit).map (·.item)) ∧
            ((found visit).length ≤ 2 ^ 32 →
              Walks (ask fs color root limit visits) 0
                ((found visit).map (·.item)))) := by
  intro found
  refine ⟨fun visit => ⟨sortBy_perm _ _, FindingMap.pairwise_findings _⟩, ?_,
    fun limit offset =>
    read_request root, analyze_visit hload, fun visits visit hvisits limit hlimit =>
      ⟨walks_scanAnswer_iff hvisits hlimit,
        fun hfour => ⟨fun seen => seen_eq_of_walks hload hvisits hfour,
        walks_ask hload hvisits hlimit hfour⟩⟩⟩
  intro visit parameters limit offset hread
  have hscan := scan_of_read hload hread visit
  have hoffset : offset.getD 0 < 2 ^ 32 := by
    rcases offset with - | n
    · decide
    · exact offset_lt_of_read hread n rfl
  exact ⟨_, .ofFindings (found visit) (offset.getD 0) (pageSize limit),
    congrArg (·.result) hscan,
    congrArg (·.files) hscan, ofAnswer_scanAnswer _ _ _, shows_ofFindings limit hoffset⟩

end Project

/-- A project of one script with two calls, each on two lines. -/
def twoCalls : FileSystem where
  root := .directory [("a.js", .file (.text "a.to(\n\x7b\x7d)\nb.to(\n\x7b\x7d)".toList))]
  current := []

/-- One finding a page, the findings of two calls are seen in two pages; behind
them nothing is. -/
theorem scan_pages_two_calls :
    (∃ seen, seen.length = 2 ∧
        ∀ visits, Walks (ask twoCalls false "." (some 1) visits) 0 seen) ∧
      ∃ page, ask twoCalls false "." (some 1) (fun _ => .inText) 7 = some page ∧
        page.items = [] ∧
        page.more = false := by
  have hsettings : findSettings twoCalls "." = none := by decide +kernel
  have hload : Project.load twoCalls false (some ".") false =
      .ok (plainProject twoCalls, _) :=
    load_plainProject hsettings false
  have hscripts : ScriptsSettled twoCalls "." 0 := by
    apply scriptsSettled_of_stayApart
    decide +kernel
  have hfound :
      ((plainProject twoCalls).analyze twoCalls).findings.findings.length = 2 := by
    decide +kernel
  obtain ⟨-, hpages, hrequests, hsettled, hwalks⟩ := scan_pages hload
  have hread := hrequests (some 1) (some 7) (by simp) (by simp)
  obtain ⟨answer, page, hanswer, -, hpage, hshows⟩ := hpages .inText _ _ _ hread
  refine ⟨⟨_, ?_, fun visits =>
    ((hwalks visits .inText (fun offset => hsettled hscripts _ _) (some 1)
    (by simp)).2 (by simp)).2 ?_⟩, page, ?_, ?_, ?_⟩
  · rw [List.length_map, hfound]
  · rw [hfound]
    decide
  · rw [ask, hanswer]
    exact hpage
  · have hbehind :
        ((plainProject twoCalls).analyze twoCalls).findings.findings[7]? = none :=
      List.getElem?_eq_none (Nat.le_trans (Nat.le_of_eq hfound) (by decide))
    have hnone := hshows.items 0
    rw [Nat.add_zero, Option.getD_some, Option.getD_some, hbehind, Option.map_none,
      ite_self] at hnone
    exact List.eq_nil_of_length_eq_zero
      (Nat.le_zero.1 (List.getElem?_eq_none_iff.1 hnone))
  · refine Bool.eq_false_iff.2 fun htrue => ?_
    obtain ⟨j, hle, hlt⟩ := hshows.more.1 htrue
    rw [hfound] at hlt
    rw [Option.getD_some] at hle
    omega

end Service

end AnimLint
