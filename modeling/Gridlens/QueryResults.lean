import Gridlens.Outside

/-!
# Reading the result of a query

Athena hands a result over in pages of at most a thousand rows, the header
among them. `quality.bronze.fetch`, `lake.gaps._rows` and
`quality.restatement._rows` ask for one page; `table_stats.run_query` goes
through them all.

1. `fetch_whole_iff`, `rowsOr_whole_iff`: what one page is enough for.
2. `runQuery_whole`: the reader that pages loses nothing.
-/

namespace Gridlens

/-- A row of a result: its cells, of which a null has no `VarCharValue`. -/
abbrev Cells := List (Option String)

/-- What the client answers for a query that has ended: its execution, and the
`Rows` of each page of its result. -/
structure QueryAnswer where
  execution : Execution
  pages : List (List Cells)

/-- `get_query_results(QueryExecutionId=query_id)["ResultSet"]["Rows"]`. -/
def QueryAnswer.rows (a : QueryAnswer) : List Cells := a.pages.headD []

/-- `cell.get("VarCharValue", "")` for every cell. -/
def texts (row : Cells) : List String := row.map fun cell => cell.getD ""

/-- A frame, by its columns. -/
structure Frame where
  columns : Cells
  body : List Cells

/-- `quality.bronze.fetch`. -/
def bronzeFetch (a : QueryAnswer) : Py (Frame × Nat) :=
  if a.execution.succeeded then
    match a.rows with
    | [] => raise .IndexError [.text "list index out of range"]
    | header :: body => .ok (⟨header, body⟩, a.execution.dataScannedInBytes)
  else raise .RuntimeError [.text (a.execution.stateChangeReason.getD "query failed")]

/-- The `_rows` of a module, with the exception it has. -/
def rowsOr (failed : Exc) (a : QueryAnswer) : Py (List (List String)) :=
  -- the first row is the header, always, even when nothing matched
  if a.execution.succeeded then .ok ((a.rows.drop 1).map texts)
  else raise failed [.text (a.execution.stateChangeReason.getD "no reason")]

/-- `lake.gaps._rows`. -/
def gapRows : QueryAnswer → Py (List (List String)) := rowsOr .GapQueryFailed

/-- `quality.restatement._rows`. -/
def auditRows : QueryAnswer → Py (List (List String)) := rowsOr .AuditFailed

/-- One row of any page, behind the header and the rows so far. -/
def runQueryStep (found : List String × List (List (String × String))) (row : Cells) :
    List String × List (List (String × String)) :=
  if found.1 = [] then (texts row, found.2) else (found.1, found.2 ++ [found.1.zip (texts row)])

/-- `table_stats.run_query`, a row being its columns and their values. -/
def runQuery (a : QueryAnswer) : Py (List (List (String × String))) :=
  if a.execution.succeeded then .ok (a.pages.flatten.foldl runQueryStep ([], [])).2
  else raise .QueryFailed [.text (a.execution.stateChangeReason.getD "no reason")]

/-- The most rows a page has. -/
abbrev PAGE_ROWS : Nat := 1000

/-- The query succeeded, and this is its result: the header, which is on the
first page, and the rows. -/
structure HoldsResult (a : QueryAnswer) (header : Cells) (data : List Cells) : Prop where
  succeeded : a.execution.succeeded = true
  whole : a.pages.flatten = header :: data
  short : ∀ page ∈ a.pages, page.length ≤ PAGE_ROWS
  first : a.rows ≠ []

section HoldsResult

variable {a : QueryAnswer} {header : Cells} {data : List Cells}

/-- The first page is the header and the rows in front. -/
theorem HoldsResult.rows_eq (h : HoldsResult a header data) :
    ∃ front back, a.rows = header :: front ∧ data = front ++ back := by
  rcases hpages : a.pages with _ | ⟨page, pages⟩
  · have hwhole := h.whole
    rw [hpages] at hwhole
    cases hwhole
  · have hrows : a.rows = page := by
      unfold QueryAnswer.rows
      rw [hpages]
      rfl
    have hwhole := h.whole
    rw [hpages, List.flatten_cons] at hwhole
    rcases hpage : page with _ | ⟨row, front⟩
    · exact absurd (hrows.trans hpage) h.first
    · rw [hpage] at hwhole hrows
      rw [List.cons_append] at hwhole
      rcases List.cons.inj hwhole with ⟨rfl, hdata⟩
      exact ⟨front, pages.flatten, hrows, hdata.symm⟩

/-- A first page that is everything has room for the header. -/
theorem HoldsResult.length_lt (h : HoldsResult a header data) (hall : a.rows = header :: data) :
    data.length < PAGE_ROWS := by
  rcases hpages : a.pages with _ | ⟨page, pages⟩
  · have hwhole := h.whole
    rw [hpages] at hwhole
    cases hwhole
  · have hrows : a.rows = page := by
      unfold QueryAnswer.rows
      rw [hpages]
      rfl
    have hpage := h.short page (by rw [hpages]; exact List.mem_cons_self)
    rw [← hrows, hall, List.length_cons] at hpage
    exact hpage

/-- `fetch` returns the result where the first page is all of it. -/
theorem fetch_whole_iff (h : HoldsResult a header data) :
    bronzeFetch a = .ok (⟨header, data⟩, a.execution.dataScannedInBytes) ↔
      a.rows = header :: data := by
  rcases h.rows_eq with ⟨front, back, hrows, -⟩
  unfold bronzeFetch
  rw [if_pos h.succeeded, hrows]
  simp only
  rw [Except.ok.injEq, Prod.mk.injEq, Frame.mk.injEq, List.cons.injEq, and_iff_left rfl]

/-- And so does `_rows`. -/
theorem rowsOr_whole_iff (h : HoldsResult a header data) (failed : Exc) :
    rowsOr failed a = .ok (data.map texts) ↔ a.rows = header :: data := by
  rcases h.rows_eq with ⟨front, back, hrows, hdata⟩
  unfold rowsOr
  rw [if_pos h.succeeded, hrows, List.drop_one, List.tail_cons, Except.ok.injEq, List.cons.injEq,
    and_iff_right rfl]
  constructor
  · intro hsame
    -- the rows of the first page are as many as there are
    have hlength := congrArg List.length hsame
    rw [List.length_map, List.length_map, hdata, List.length_append] at hlength
    have hback : back = [] := List.eq_nil_of_length_eq_zero (by omega)
    rw [hdata, hback, List.append_nil]
  · intro hsame
    rw [hsame]

theorem foldl_runQueryStep {names : List String} (hnames : names ≠ []) (data : List Cells)
    (rows : List (List (String × String))) :
    data.foldl runQueryStep (names, rows) =
      (names, rows ++ data.map fun row => names.zip (texts row)) := by
  induction data generalizing rows with
  | nil => rw [List.foldl_nil, List.map_nil, List.append_nil]
  | cons row data ih =>
      have hstep : runQueryStep (names, rows) row = (names, rows ++ [names.zip (texts row)]) :=
        if_neg hnames
      rw [List.foldl_cons, hstep, ih, List.map_cons, List.append_assoc, List.singleton_append]

/-- The reader that goes through the pages returns every row. -/
theorem runQuery_whole (h : HoldsResult a header data) (hheader : header ≠ []) :
    runQuery a = .ok (data.map fun row => (texts header).zip (texts row)) := by
  have hnames : texts header ≠ [] := fun hnil => hheader (List.map_eq_nil_iff.mp hnil)
  have hfirst : runQueryStep ([], []) header = (texts header, []) := if_pos rfl
  unfold runQuery
  rw [if_pos h.succeeded, h.whole, List.foldl_cons, hfirst, foldl_runQueryStep hnames,
    List.nil_append]

end HoldsResult

end Gridlens
