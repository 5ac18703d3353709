import WlanBridge.Print

/-! A command behind pipes prints what the filters make of all its lines, one filter after
the other, although each line goes through all of them before the next is printed. -/
namespace WlanBridge

def linesOf (text : Text) : List Text := (splitLines text).1 ++ [(splitLines text).2]

def Filter.Fresh : Filter → Prop
  | .matching .. => True
  | .range matched _ _ => matched = false
  | .count n => n = 0

/-- What a fresh filter makes of some lines. A range is open from a line with its start, up
to the next line with its stop, that line included. -/
noncomputable def Filter.keeps (f : Filter) (lines : List Text) : List Text :=
  match f with
  | .matching m invert => lines.filter (cliMatchFilter m invert)
  | .range _ start stop =>
    Sieve.keepWhere (Sieve.Opened (fun line => strstr line start) fun line => stop.any fun stop => strstr line stop) []
      lines
  | .count _ => []

def notBlank (line : Text) : Bool := !(line.dropWhile isSpace).isEmpty

/-- What a fresh filter reports at the end of some lines. -/
def Filter.reports (f : Filter) (lines : List Text) : Text :=
  match f with
  | .count _ => crlf (decimal (lines.countP notBlank))
  | _ => []

/-- What some filters make of the lines, one filter after the other. -/
noncomputable def piped (filters : List Filter) (lines : List Text) : List Text :=
  filters.foldl (fun lines f => f.keeps lines) lines

/-- What they report, each on the lines that come to it. -/
noncomputable def rowReports : List Filter → List Text → Text
  | [], _ => []
  | f :: rest, lines => f.reports lines ++ rowReports rest (f.keeps lines)

theorem sift_range (matched : Bool) (start : Text) (stop : Option Text) (lines : List Text) :
    ∃ behind, Sieve.sift Filter.run (.range matched start stop) lines =
      ((Sieve.sift (Sieve.gate (fun line => strstr line start) fun line => stop.any fun stop => strstr line stop)
        matched lines).1, .range behind start stop) := by
  induction lines generalizing matched with
  | nil => exact ⟨matched, rfl⟩
  | cons line rest ih =>
    cases opened : matched || strstr line start with
    | true =>
      obtain ⟨behind, later⟩ := ih (!(stop.any fun stop => strstr line stop))
      refine ⟨behind, ?_⟩
      simp [Sieve.sift, Filter.run, cliRangeFilter, Sieve.gate, opened, later]
    | false =>
      obtain ⟨behind, later⟩ := ih false
      refine ⟨behind, ?_⟩
      simp [Sieve.sift, Filter.run, cliRangeFilter, Sieve.gate, opened, later]

theorem sift_count (n : Nat) (lines : List Text) :
    Sieve.sift Filter.run (.count n) lines = ([], .count (n + lines.countP notBlank)) := by
  induction lines generalizing n with
  | nil => rfl
  | cons line rest ih =>
    cases blank : (line.dropWhile isSpace).isEmpty with
    | true => simp [Sieve.sift, Filter.run, cliCountFilter, blank, ih, notBlank]
    | false =>
      simp only [Sieve.sift, Filter.run, cliCountFilter, blank, ih, notBlank, List.countP_cons]
      simp only [Bool.not_false, if_true, Bool.false_eq_true, if_false]
      rw [Nat.add_right_comm, Nat.add_assoc]

theorem sift_filter (f : Filter) (fresh : f.Fresh) (lines : List Text) :
    ∃ behind, Sieve.sift Filter.run f lines = (f.keeps lines, behind) ∧ behind.teardown = f.reports lines := by
  cases f with
  | matching m invert =>
    exact ⟨_, Sieve.sift_stateless Filter.run _ (cliMatchFilter m invert) (fun _ => rfl) lines, rfl⟩
  | range matched start stop =>
    obtain rfl : matched = false := fresh
    obtain ⟨behind, swept⟩ := sift_range false start stop lines
    refine ⟨.range behind start stop, ?_, rfl⟩
    rw [swept, Sieve.sift_gate _ _ [] lines false]
    · rfl
    · simp [Sieve.OpenBehind]
  | count n =>
    obtain rfl : n = 0 := fresh
    exact ⟨_, sift_count 0 lines, by simp [Filter.teardown, Filter.reports]⟩

theorem init_fresh (built : FilterStage.init regcomp stage = .ok f) : f.Fresh := by
  unfold FilterStage.init at built
  split at built
  · obtain rfl := Except.ok.inj built
    rfl
  · obtain rfl := Except.ok.inj built
    rfl
  · unfold cliCountFilterInit at built
    split at built
    · exact nomatch built
    · obtain rfl := Except.ok.inj built
      rfl
  · simp only [cliMatchFilterInit] at built
    split at built
    · obtain rfl := Except.ok.inj built
      trivial
    · split at built
      · obtain rfl := Except.ok.inj built
        trivial
      · split at built
        · exact nomatch built
        · obtain rfl := Except.ok.inj built
          trivial

theorem initFilters_fresh (regcomp : Regcomp) (stages : List FilterStage) :
    ∀ f ∈ (initFilters regcomp stages).1, f.Fresh := by
  induction stages with
  | nil => simp [initFilters]
  | cons stage rest ih =>
    rw [initFilters]
    cases built : stage.init regcomp with
    | error text => simp
    | ok f =>
      intro g member
      rcases List.mem_cons.mp member with rfl | later
      · exact init_fresh built
      · exact ih g later

theorem cascade_filters (filters : List Filter) (fresh : ∀ f ∈ filters, f.Fresh) (lines : List Text) :
    (Sieve.cascade Filter.run filters lines).1 = piped filters lines ∧
      (Sieve.cascade Filter.run filters lines).2.flatMap Filter.teardown = rowReports filters lines := by
  induction filters generalizing lines with
  | nil => exact ⟨rfl, rfl⟩
  | cons f rest ih =>
    obtain ⟨behind, swept, torn⟩ := sift_filter f (fresh f (by simp)) lines
    obtain ⟨kept, later⟩ := ih (fun g member => fresh g (List.mem_cons_of_mem _ member)) (f.keeps lines)
    rw [Sieve.cascade, swept]
    refine ⟨kept, ?_⟩
    rw [List.flatMap_cons, torn, later, rowReports]

theorem emit_filtered (p : Printer) (line : Text) :
    p.emit true line = { p with
      filters := (Sieve.sift (Sieve.pass Filter.run) p.filters [line]).2
      sent := p.sent ++ (Sieve.sift (Sieve.pass Filter.run) p.filters [line]).1.flatMap crlf } := by
  cases passed : Sieve.pass Filter.run p.filters line with
  | mk kept filters => cases kept <;> simp [Printer.emit, Sieve.sift, passed]

theorem foldl_emit (p : Printer) (lines : List Text) :
    lines.foldl (Printer.emit true) p = { p with
      filters := (Sieve.sift (Sieve.pass Filter.run) p.filters lines).2
      sent := p.sent ++ (Sieve.sift (Sieve.pass Filter.run) p.filters lines).1.flatMap crlf } := by
  induction lines generalizing p with
  | nil => simp [Sieve.sift]
  | cons line rest ih =>
    have split := Sieve.sift_append (Sieve.pass Filter.run) p.filters [line] rest
    rw [List.singleton_append] at split
    rw [List.foldl_cons, ih, emit_filtered, split]
    simp [List.append_assoc]

/-- A text that is printed at once goes through the filters line by line. -/
theorem cliPrint_eq (p : Printer) (empty : p.buffer = []) (text : Text) :
    cliPrint p text = (linesOf text).foldl (Printer.emit true) p := by
  rw [linesOf, List.foldl_append, List.foldl_cons, List.foldl_nil]
  simp only [cliPrint, Printer.print, empty, List.nil_append]
  rw [foldl_emit, emit_filtered]
  simp [empty]

theorem foldl_cliPrint (p : Printer) (empty : p.buffer = []) (texts : List Text) :
    texts.foldl cliPrint p = (texts.flatMap linesOf).foldl (Printer.emit true) p := by
  induction texts generalizing p with
  | nil => rfl
  | cons text rest ih =>
    rw [List.foldl_cons, List.flatMap_cons, List.foldl_append, ← cliPrint_eq p empty, ih]
    rw [cliPrint_eq p empty, foldl_emit]
    exact empty

/-- The client is sent what the filters make of all the lines, one filter after the other,
then the counts. When a filter cannot be built the client is told, there are no lines, and
the counts of the filters before it follow all the same. -/
theorem pipeline_is_pipe (regcomp : Regcomp) (sent : Text) (stages : List FilterStage) (texts : List Text) :
    let (filters, error) := initFilters regcomp stages
    let lines := if error = none then texts.flatMap linesOf else []
    (cliIntExecutePipeline regcomp ⟨[], [], sent⟩ stages texts).sent =
      sent ++ error.elim [] crlf ++ (piped filters lines).flatMap crlf ++ rowReports filters lines := by
  have fresh := initFilters_fresh regcomp stages
  cases built : initFilters regcomp stages with
  | mk filters error =>
    rw [built] at fresh
    have swept (lines : List Text) (p : Printer) (row : p.filters = filters) :
        (lines.foldl (Printer.emit true) p).sent ++
          (lines.foldl (Printer.emit true) p).filters.flatMap Filter.teardown =
        p.sent ++ (piped filters lines).flatMap crlf ++ rowReports filters lines := by
      obtain ⟨kept, torn⟩ := cascade_filters filters fresh lines
      rw [foldl_emit, row, Sieve.sift_pass, kept, torn]
    simp only [cliIntExecutePipeline, built]
    by_cases ok : error = none
    · simp only [ok, if_true, foldl_cliPrint]
      rw [swept _ _ rfl]
    · have nothing := swept [] ⟨[], filters, sent ++ error.elim [] crlf⟩ rfl
      simp only [ok, if_false]
      exact nothing

end WlanBridge
