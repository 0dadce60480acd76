import Mensura.Proofs.Command.Rendering

/-!
# Watching a source

A watch renders the source, and then looks at it again and again.  `watch` runs it over a list of
polls, each of which finds the source missing, or with a modification time and a content.

It renders exactly at the start and at the polls that find another modification time than the one
last seen (`poll_eq`, `watch_concat`).  So it is told by the contents that it attempts: one poll
`Renders` one content or none, and by induction a list of polls renders a list of contents, up to
the first that stops with a fault (`Ready.pollAll_renders`).

The command prepares such a watch and runs it (`run_eq_watch`).  How it ends and what the output
holds then is `watch_outcome`.
-/

set_option autoImplicit false

namespace Mensura
namespace Command

variable {setup : Setup} {s t u : Session} {content : List UInt8}

/-! ## Polls -/

/-- What a poll finds where the source lies: nothing, or a file with a modification time and a
content. -/
structure Poll (τ : Type) where
  /-- The time of day, with which log records are stamped. -/
  stamp : String
  found : Option (τ × List UInt8)

section Found

variable {τ : Type}

/-- A session at the time of a poll, with the source as it is then. -/
def Session.polled (s : Session) (setup : Setup) (p : Poll τ) : Session :=
  { s.edited [(setup.source, p.found.map (·.2))] with stamp := p.stamp }

/-- A poll that finds nothing new: at most, the watch logs that the source is missing. -/
def Session.passed (s : Session) (setup : Setup) (p : Poll τ) : Session :=
  match p.found with
  | none => (s.polled setup p).log Session.commandLogger .warning
      (setup.source ++ " disappeared, waiting for it to come back")
  | some _ => s.polled setup p

/-- A poll that finds the source changed, which is to be rendered. -/
def Session.noticed (s : Session) (setup : Setup) (p : Poll τ) : Session :=
  (s.polled setup p).log Session.commandLogger .info (setup.source ++ " changed, re-rendering")

/-- What happens to the source changes nothing else. -/
theorem Ready.polled_advances (h : Ready setup s) (p : Poll τ) :
    Advances setup none s (s.polled setup p) ∧
      (s.polled setup p).files.contentAt? (Place.ofPath setup.source) = p.found.map (·.2) := by
  have hfits := Files.fits_of_opens h.source
  have hlog : (s.polled setup p).logPlaces = s.logPlaces := by
    have hsource := h.logSource
    simp only [Session.logPlaces, Session.polled, Session.edited] at hsource ⊢
    cases hlog : s.logFile with
    | none => rfl
    | some log =>
      rw [hlog] at hsource
      have hne : Place.ofPath setup.source ≠ log.1 := List.ne_of_not_mem_cons hsource
      rw [Option.filter_some, if_pos (by simp [Edit.deletes, hne])]
  obtain ⟨hchanged, hcontent⟩ :
      Files.ChangedAt [Place.ofPath setup.source] s.files (s.polled setup p).files ∧
        (s.polled setup p).files.contentAt? (Place.ofPath setup.source) = p.found.map (·.2) := by
    obtain ⟨stamp, - | found⟩ := p
    · exact ⟨Files.changedAt_removeAt _ _, Files.contentAt?_removeAt_self _ _⟩
    · exact ⟨Files.changedAt_putAt hfits _, Files.contentAt?_putAt_self _ _ _⟩
  refine ⟨.of_changedAt h hchanged ?_ hlog ?_, hcontent⟩
  · simpa using hfits.free
  · simpa using h.output

theorem Ready.passed_advances (h : Ready setup s) (p : Poll τ) :
    Advances setup none s (s.passed setup p) := by
  have hpolled := (h.polled_advances p).1
  rw [Session.passed]
  split
  · exact hpolled.followed (hpolled.ready.log_advances _ _ _)
  · exact hpolled

theorem Ready.noticed_advances (h : Ready setup s) (p : Poll τ) :
    Advances setup none s (s.noticed setup p) ∧
      (s.noticed setup p).files.contentAt? (Place.ofPath setup.source) = p.found.map (·.2) := by
  obtain ⟨hpolled, hcontent⟩ := h.polled_advances p
  exact ⟨hpolled.followed (hpolled.ready.log_advances _ _ _),
    (hpolled.ready.contentAt?_log _ _ _).trans hcontent⟩

end Found

variable {τ : Type} [DecidableEq τ]

/-- The content that a poll makes a watch render: that of a source with a modification time other
than the last one seen. -/
def Poll.attempt? (last : τ) (p : Poll τ) : Option (List UInt8) :=
  match p.found with
  | none => none
  | some (time, content) => if time = last then none else some content

/-- The modification time last seen after a poll. -/
def Poll.seen (last : τ) (p : Poll τ) : τ :=
  match p.found with
  | none => last
  | some (time, _) => time

/-- One poll: a look at the source as it is then. -/
def poll (setup : Setup) (last : τ) (p : Poll τ) (s : Session) : Session × τ × Option Trouble :=
  lookAgain setup last (p.found.map (·.1)) (s.polled setup p)

/-- A poll renders exactly if it finds another modification time. -/
theorem poll_eq (last : τ) (p : Poll τ) (s : Session) : poll setup last p s =
    match p.attempt? last with
    | none => (s.passed setup p, p.seen last, none)
    | some _ => ((rerender setup (s.noticed setup p)).1, p.seen last,
        (rerender setup (s.noticed setup p)).2) := by
  obtain ⟨stamp, - | ⟨time, content⟩⟩ := p
  · rfl
  · by_cases h : time = last
    · simp [poll, lookAgain, Watch.look, Poll.attempt?, Poll.seen, Session.passed, h]
    · simp [poll, lookAgain, Watch.look, Poll.attempt?, Poll.seen, Session.noticed, h]

theorem poll_seen (last : τ) (p : Poll τ) (s : Session) :
    (poll setup last p s).2.1 = p.seen last := by
  rw [poll_eq]
  cases p.attempt? last <;> rfl

theorem found_of_attempt? {last : τ} {p : Poll τ} (h : p.attempt? last = some content) :
    p.found.map (·.2) = some content := by
  rw [Poll.attempt?] at h
  split at h
  · cases h
  · next hfound =>
    split at h
    · cases h
    · rw [hfound, ← h, Option.map_some]

/-! ## Runs -/

/-- The modification time last seen after some polls. -/
def lastSeen (initial : τ) (polls : List (Poll τ)) : τ :=
  polls.foldl Poll.seen initial

/-- The contents that some polls make a watch render. -/
def attempted (last : τ) : List (Poll τ) → List (List UInt8)
  | [] => []
  | p :: rest => (p.attempt? last).toList ++ attempted (p.seen last) rest

/-- Polls, one after the other, up to one that goes wrong beyond repair. -/
def pollAll (setup : Setup) : τ → List (Poll τ) → Session → Session × Option Trouble
  | _, [], s => (s, none)
  | last, p :: rest, s =>
    match poll setup last p s with
    | (s, seen, none) => pollAll setup seen rest s
    | (s, _, some trouble) => (s, some trouble)

/-- A watch: the first rendering, and then polls of a source that had a modification time. -/
def watch (setup : Setup) (initial : τ) (polls : List (Poll τ)) (s : Session) :
    Session × Option Trouble :=
  match startWatching setup s with
  | (s, none) => pollAll setup initial polls s
  | (s, some trouble) => (s, some trouble)

/-- A poll that is carried out is followed by the next. -/
theorem pollAll_append (initial : τ) (polls more : List (Poll τ)) (s : Session) :
    pollAll setup initial (polls ++ more) s =
      match pollAll setup initial polls s with
      | (s, none) => pollAll setup (lastSeen initial polls) more s
      | (s, some trouble) => (s, some trouble) := by
  induction polls generalizing initial s with
  | nil => rfl
  | cons p rest ih =>
    have hseen : (poll setup initial p s).2.1 = p.seen initial := poll_seen initial p s
    rw [List.cons_append, pollAll, pollAll]
    generalize poll setup initial p s = polled at hseen
    obtain ⟨t, seen, trouble⟩ := polled
    obtain rfl : seen = p.seen initial := hseen
    cases trouble with
    | none => exact ih _ _
    | some trouble => rfl

theorem watch_append (initial : τ) (polls more : List (Poll τ)) (s : Session) :
    watch setup initial (polls ++ more) s =
      match watch setup initial polls s with
      | (s, none) => pollAll setup (lastSeen initial polls) more s
      | (s, some trouble) => (s, some trouble) := by
  rw [watch, watch]
  obtain ⟨t, - | trouble⟩ := startWatching setup s
  · exact pollAll_append _ _ _ _
  · rfl

/-- **A watch renders at the polls that find another modification time than the one last seen**, and
at no others: if it was carried out up to a poll, this is what it does there. -/
theorem watch_concat {initial : τ} {polls : List (Poll τ)}
    (h : (watch setup initial polls s).2 = none) (p : Poll τ) :
    watch setup initial (polls ++ [p]) s =
      match p.attempt? (lastSeen initial polls) with
      | none => ((watch setup initial polls s).1.passed setup p, none)
      | some _ => rerender setup ((watch setup initial polls s).1.noticed setup p) := by
  rw [watch_append]
  generalize watch setup initial polls s = watched at h
  obtain ⟨t, trouble⟩ := watched
  obtain rfl : trouble = none := h
  simp only [pollAll, poll_eq]
  cases p.attempt? (lastSeen initial polls) with
  | none => rfl
  | some content =>
    dsimp only
    obtain ⟨u, - | trouble⟩ := rerender setup (t.noticed setup p) <;> rfl

/-- What is left of a series of contents in the output: the document of the last of them that has
one, up to the first that stops with a fault. -/
def latest? (settings : Settings) (contents : List (List UInt8)) : Option (List UInt8) :=
  ((contents.takeWhile fun content ↦ (faultIn? settings content).isNone).filterMap
    (documentBytes? settings)).getLast?

section Latest

variable {settings : Settings}

/-- What stops with a fault has no document. -/
theorem latest?_singleton (content : List UInt8) :
    latest? settings [content] = documentBytes? settings content := by
  rw [latest?, List.takeWhile_cons]
  cases hfault : faultIn? settings content with
  | none => cases hbytes : documentBytes? settings content <;> simp [hbytes]
  | some f =>
    rw [faultIn?] at hfault
    rw [documentBytes?]
    split at hfault
    · next hd => rw [hd]; rfl
    · cases hfault

variable {contents : List (List UInt8)}

/-- Later documents replace the earlier ones. -/
theorem latest?_append (h : contents.findSome? (faultIn? settings) = none)
    (others : List (List UInt8)) : latest? settings (contents ++ others) =
      (latest? settings others).or (latest? settings contents) := by
  have hall : ∀ content ∈ contents, (faultIn? settings content).isNone = true := by
    simpa using h
  have hself : (contents ++ []).takeWhile (fun content ↦ (faultIn? settings content).isNone) =
      contents ++ [] := List.takeWhile_append_of_pos hall
  rw [List.append_nil] at hself
  rw [latest?, List.takeWhile_append_of_pos hall, List.filterMap_append, List.getLast?_append,
    latest?, latest?, hself]

/-- Nothing follows a fault. -/
theorem latest?_append_of_fault {f : Fault} (h : contents.findSome? (faultIn? settings) = some f)
    (others : List (List UInt8)) :
    latest? settings (contents ++ others) = latest? settings contents := by
  have hstop : ¬∀ content ∈ contents, (faultIn? settings content).isNone = true := by
    intro hall
    have : contents.findSome? (faultIn? settings) = none := by simpa using hall
    rw [h] at this
    cases this
  -- Not all of the contents are taken, so none of the others is.
  have hself : (contents.takeWhile fun c ↦ (faultIn? settings c).isNone).length ≠
      contents.length :=
    fun hlength ↦ hstop fun content hmem ↦ by
      rw [← (List.takeWhile_prefix _).eq_of_length hlength] at hmem
      exact List.all_eq_true.mp List.all_takeWhile content hmem
  rw [latest?, List.takeWhile_append, if_neg hself, latest?]

end Latest

/-- A series of contents is rendered, up to the first of them that stops with a fault. -/
structure Renders (setup : Setup) (contents : List (List UInt8)) (s t : Session)
    (trouble : Option Trouble) : Prop where
  advances : Advances setup
    (if s.files.opens setup.output then latest? setup.settings contents else none) s t
  trouble : trouble = (contents.findSome? (faultIn? setup.settings)).map .fault

theorem Advances.renders (h : Advances setup none s t) : Renders setup [] s t none :=
  ⟨by rwa [show latest? setup.settings [] = none from rfl, ite_self], rfl⟩

/-- A series that is rendered to its end may be followed by another. -/
theorem Renders.append {contents others : List (List UInt8)} {trouble : Option Trouble}
    (h : Renders setup contents s t none) (h' : Renders setup others t u trouble) :
    Renders setup (contents ++ others) s u trouble := by
  have hnone := Option.map_eq_none_iff.mp h.trouble.symm
  constructor
  · have hadvances := h.advances.trans h'.advances
    rw [h.advances.opens] at hadvances
    rw [latest?_append hnone]
    split <;> simp_all
  · rw [h'.trouble, List.findSome?_append, hnone, Option.none_or]

/-- A series that stops with a fault is all that is rendered. -/
theorem Renders.stop {contents : List (List UInt8)} {trouble : Trouble}
    (h : Renders setup contents s t (some trouble)) (others : List (List UInt8)) :
    Renders setup (contents ++ others) s t (some trouble) := by
  obtain ⟨f, hf, -⟩ := Option.map_eq_some_iff.mp h.trouble.symm
  refine ⟨?_, ?_⟩
  · rw [latest?_append_of_fault hf]
    exact h.advances
  · rw [h.trouble, List.findSome?_append, hf, Option.some_or]

theorem Ready.rerender_renders (h : Ready setup s)
    (hcontent : s.files.contentAt? (Place.ofPath setup.source) = some content) :
    Renders setup [content] s (rerender setup s).1 (rerender setup s).2 := by
  obtain ⟨hadvances, htrouble⟩ := rerender_advances h hcontent
  refine ⟨by rwa [latest?_singleton], ?_⟩
  rw [htrouble]
  cases hfault : faultIn? setup.settings content <;> simp [hfault]

theorem Ready.poll_renders (h : Ready setup s) (last : τ) (p : Poll τ) :
    Renders setup (p.attempt? last).toList s (poll setup last p s).1 (poll setup last p s).2.2 := by
  rw [poll_eq]
  cases hattempt : p.attempt? last with
  | none => exact (h.passed_advances p).renders
  | some content =>
    obtain ⟨hnoticed, hcontent⟩ := h.noticed_advances p
    rw [found_of_attempt? hattempt] at hcontent
    exact hnoticed.renders.append (hnoticed.ready.rerender_renders hcontent)

/-- **Polls render what they attempt**, by induction on the polls. -/
theorem Ready.pollAll_renders (h : Ready setup s) (last : τ) (polls : List (Poll τ)) :
    Renders setup (attempted last polls) s (pollAll setup last polls s).1
      (pollAll setup last polls s).2 := by
  induction polls generalizing last s with
  | nil => exact (Advances.refl h).renders
  | cons p rest ih =>
    have hpoll := h.poll_renders last p
    have hseen : (poll setup last p s).2.1 = p.seen last := poll_seen last p s
    rw [pollAll, attempted]
    generalize poll setup last p s = polled at hpoll hseen
    obtain ⟨t, seen, trouble⟩ := polled
    obtain rfl : seen = p.seen last := hseen
    cases trouble with
    | none => exact hpoll.append (ih hpoll.advances.ready _)
    | some trouble =>
      -- The polls behind it attempt contents that are not rendered any more.
      exact hpoll.stop _

/-- The first rendering, of a source that is there. -/
theorem Ready.startWatching_renders (h : Ready setup s)
    (hcontent : s.files.contentAt? (Place.ofPath setup.source) = some content) :
    Renders setup [content] s (startWatching setup s).1 (startWatching setup s).2 := by
  have hrendered := h.rerender_renders hcontent
  rw [startWatching]
  generalize rerender setup s = rendered at hrendered
  obtain ⟨t, - | trouble⟩ := rendered
  · exact hrendered.append (hrendered.advances.ready.say_advances _).renders
  · exact hrendered

/-- **A watch renders what it attempts**: the first content, and then those of the polls. -/
theorem Ready.watch_renders (h : Ready setup s)
    (hcontent : s.files.contentAt? (Place.ofPath setup.source) = some content) (initial : τ)
    (polls : List (Poll τ)) :
    Renders setup (content :: attempted initial polls) s (watch setup initial polls s).1
      (watch setup initial polls s).2 := by
  have hstarted := h.startWatching_renders hcontent
  rw [watch]
  generalize startWatching setup s = started at hstarted
  obtain ⟨t, - | trouble⟩ := started
  · exact hstarted.append (hstarted.advances.ready.pollAll_renders initial polls)
  · exact hstarted.stop _

/-! ## The command -/

theorem startLogging_of_prepare {request : Request} {r : RenderRequest}
    (h : prepare s request r = (t, .ok setup)) :
    ∃ level, s.startLogging level request.logFile = .ok t := by
  rw [prepare] at h
  split at h
  · split at h <;> cases h
  · dsimp only at h
    split at h
    · cases h
    · next hstarted =>
      obtain ⟨rfl, -⟩ := Prod.mk.inj h
      exact ⟨_, hstarted⟩

variable {args : List String} {verbose : Bool} {logFile : Option String} {r : RenderRequest}

/-- The command prepares and watches, and says so when it is stopped. -/
theorem run_eq_watch (hrequest : Request.ofArguments s.files args =
      .ok ⟨verbose, logFile, .render r⟩)
    (hwatch : r.watch = true)
    (hprepare : prepare s ⟨verbose, logFile, .render r⟩ r = (t, .ok setup)) (initial : τ)
    (polls : List (Poll τ)) :
    run (fun setup ↦ pollAll setup initial polls) args s =
      match watch setup initial polls t with
      | (u, none) => (stopWatching u, .status 0)
      | (u, some trouble) => (u, .crash trouble) := by
  rw [run, begin, hrequest]
  simp only [hprepare, beginRender, hwatch, if_true, watch]
  obtain ⟨v, - | trouble⟩ := startWatching setup t
  · dsimp only
    obtain ⟨u, - | trouble⟩ := pollAll setup initial polls v <;> rfl
  · rfl

/-- **A watch is told by the contents that it attempts.**  Let a command be asked to watch a source
that has a content, and let source, output and log be different files.  It attempts this content,
and those that its polls find with another modification time than the one last seen.  It goes on,
whatever the contents, until it is stopped or one of them stops with a fault, and crashes with that
fault.  If the output can be opened at all, it then holds the document of the last of them that has
one; else, and if none has, what it held before. -/
theorem watch_outcome (hfresh : s.logFile = none)
    (hrequest : Request.ofArguments s.files args = .ok ⟨verbose, logFile, .render r⟩)
    (hwatch : r.watch = true)
    (hprepare : prepare s ⟨verbose, logFile, .render r⟩ r = (t, .ok setup))
    (hplaces : (Place.ofPath setup.source :: Place.ofPath setup.output ::
      logFile.toList.map Place.ofPath).Nodup)
    (hread : s.files.read setup.source = .ok content) (initial : τ) (polls : List (Poll τ)) :
    let contents := content :: attempted initial polls
    let ended := run (fun setup ↦ pollAll setup initial polls) args s
    (ended.2 = match contents.findSome? (faultIn? setup.settings) with
      | none => .status 0
      | some f => .crash (.fault f)) ∧
    ended.1.files.contentAt? (Place.ofPath setup.output) =
      (if s.files.opens setup.output then latest? setup.settings contents else none).or
        (s.files.contentAt? (Place.ofPath setup.output)) ∧
    ∀ p, (watch setup initial polls t).2 = none → watch setup initial (polls ++ [p]) t =
      match p.attempt? (lastSeen initial polls) with
      | none => ((watch setup initial polls t).1.passed setup p, none)
      | some _ => rerender setup ((watch setup initial polls t).1.noticed setup p) := by
  intro contents ended
  obtain ⟨level, hlogging⟩ := startLogging_of_prepare hprepare
  obtain ⟨hsource, hcontent⟩ := Files.read_eq_ok_iff.mp hread
  obtain ⟨hready, hkept⟩ := advances_of_startLogging hfresh hlogging hsource hplaces
  have hrendered := hready.ready.watch_renders (hkept.trans hcontent) initial polls
  have houtput := hrendered.advances.output
  rw [hready.opens, hready.output, Option.none_or] at houtput
  have htrouble := hrendered.trouble
  have hended := run_eq_watch hrequest hwatch hprepare initial polls
  suffices h : ended.2 = (match contents.findSome? (faultIn? setup.settings) with
        | none => .status 0
        | some f => .crash (.fault f)) ∧
      ended.1.files = (watch setup initial polls t).1.files from
    ⟨h.1, h.2 ▸ houtput, fun p hp ↦ watch_concat hp p⟩
  change ended = _ at hended
  rw [hended]
  generalize watch setup initial polls t = watched at htrouble
  obtain ⟨u, trouble⟩ := watched
  obtain rfl := htrouble
  cases contents.findSome? (faultIn? setup.settings) <;> exact ⟨rfl, rfl⟩

/-- A source in the working directory, and a command that watches it and keeps a log. -/
def plainSession : Session where
  files := { contents := [(Place.ofPath "doc.txt", Text.encode "x = 1\n")] }
  stamp := "00:00:00"

def plainArguments : List String :=
  ["--log-file", "run.log", "render", "doc.txt", "--watch"]

def plainRequest : RenderRequest :=
  { source := "doc.txt", watch := true }

def plainSetup : Setup :=
  ⟨"doc.txt", "doc.tex", {}⟩

theorem plain_request : Request.ofArguments plainSession.files plainArguments =
    .ok ⟨false, some "run.log", .render plainRequest⟩ :=
  rfl

theorem plain_prepared : ∃ t,
    prepare plainSession ⟨false, some "run.log", .render plainRequest⟩ plainRequest =
      (t, .ok plainSetup) :=
  ⟨_, rfl⟩

/-- A source disappears and comes back, is touched in no time, is no text, and has another value in
the end. -/
theorem watch_outcome_restored :
    let polls : List (Poll Nat) := [⟨"00:00:01", none⟩, ⟨"00:00:02", some (0, [])⟩,
      ⟨"00:00:03", some (1, [0xFF])⟩, ⟨"00:00:04", some (2, Text.encode "x = 2\n")⟩]
    let ended := run (fun setup ↦ pollAll setup 0 polls) plainArguments plainSession
    ended.2 = .status 0 ∧ ended.1.files.contentAt? (Place.ofPath "doc.tex") =
      some (Text.encode (Document.header ++ "$x = 2$\\\\\n" ++ Document.footer)) := by
  intro polls ended
  obtain ⟨t, hprepare⟩ := plain_prepared
  have hread : plainSession.files.read plainSetup.source = .ok (Text.encode "x = 1\n") :=
    Files.read_eq_ok_iff.mpr ⟨by decide +kernel, by decide +kernel⟩
  have hnone : (Text.encode "x = 1\n" :: attempted 0 polls).findSome?
      (faultIn? plainSetup.settings) = none := by decide +kernel
  obtain ⟨hexit, houtput, -⟩ :=
    watch_outcome rfl plain_request rfl hprepare (by decide +kernel) hread 0 polls
  rw [hnone] at hexit
  refine ⟨hexit, houtput.trans ?_⟩
  decide +kernel

/-- **Not every watch goes on.**  A superscript is a digit, but no number of them: the command
crashes, and does not see that the source is mended. -/
theorem not_every_watch_goes_on :
    let polls : List (Poll Nat) := [⟨"00:00:01", some (1, Text.encode "digits ²\n")⟩,
      ⟨"00:00:02", some (2, Text.encode "x = 2\n")⟩]
    let ended := run (fun setup ↦ pollAll setup 0 polls) plainArguments plainSession
    ended.2 ≠ .status 0 ∧ ended.1.files.contentAt? (Place.ofPath "doc.tex") =
      some (Text.encode (Document.header ++ "$x = 1$\\\\\n" ++ Document.footer)) := by
  intro polls ended
  obtain ⟨t, hprepare⟩ := plain_prepared
  refine ⟨fun hexit ↦ ?_, by decide +kernel⟩
  have htrouble : (watch plainSetup 0 polls
      (prepare plainSession ⟨false, some "run.log", .render plainRequest⟩ plainRequest).1).2.isSome
        = true := by decide +kernel
  have hended : ended = _ := run_eq_watch plain_request rfl hprepare 0 polls
  rw [hprepare] at htrouble
  rw [hended] at hexit
  generalize watch plainSetup 0 polls t = watched at htrouble hexit
  obtain ⟨u, - | trouble⟩ := watched
  · cases htrouble
  · cases hexit

end Command
end Mensura
