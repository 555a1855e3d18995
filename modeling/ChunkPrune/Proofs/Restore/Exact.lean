import ChunkPrune.Proofs.Path.Order
import ChunkPrune.Proofs.Restore.Sought
import ChunkPrune.Proofs.Run.Recovery

/-!
# What restoring does, exactly

In a tree without links, output directories may be missing, the same, or one below the other. The
backups that an application leads to are all moved before those of the next application are
sought, so a backup is moved once, for the first application that leads to it, and its chunk is
told as the walk of that application spells it. All this holds in whatever order the walks come by
the entries.
-/

namespace ChunkPrune

/-- The backup of a site and its chunk, as the walk of the first application spells them that leads
to the site. -/
def Site.firstPair? (apps : List Application) (tree : FileTree) (site : Site) :
    Option BackupPair :=
  apps.findSome? fun app => site.pairOn? tree app.outputDir

/-- The backup of a site is a file, and a walk from a directory leads to it. -/
structure Site.DueOn (directory : Path) (tree : FileTree) (site : Site) (pair : BackupPair) :
    Prop where
  backup : ∃ content, tree.entry? site.backup = some (.file content)
  pair : site.pairOn? tree directory = some pair

/-- The backup of a site is a file, and the walk of an application leads to it. -/
structure Site.Due (apps : List Application) (tree : FileTree) (site : Site) (pair : BackupPair) :
    Prop where
  backup : ∃ content, tree.entry? site.backup = some (.file content)
  pair : site.firstPair? apps tree = some pair

section Due

variable {tree next after : FileTree} {directory : Path} {app : Application}
  {apps rest : List Application} {site other : Site} {pair : BackupPair}

/-- The paths of a due backup and its chunk keep their files when backups return. -/
theorem Site.DueOn.reaches_after {sites : Site → Prop} (due : site.DueOn directory tree pair)
    (onDisk : tree.OnDisk) (linkFree : tree.LinkFree) (returns : tree.Returns sites after) :
    after.Reaches pair.backup site.backup ∧ after.Reaches pair.chunk site.location := by
  obtain ⟨content, backup⟩ := due.backup
  have isDirectory := (returns.directory_iff _).mpr (onDisk.parent backup).1
  have same := returns.pairOn?_eq linkFree (returns.linkFree linkFree) directory site
  exact site.reaches_of_pairOn? (returns.onDisk onDisk) (returns.linkFree linkFree) isDirectory
    (same.trans due.pair)

theorem Site.Due.exists_dueOn (due : site.Due apps tree pair) :
    ∃ app ∈ apps, site.DueOn app.outputDir tree pair := by
  obtain ⟨app, member, own⟩ := List.exists_of_findSome?_eq_some due.pair
  exact ⟨app, member, due.backup, own⟩

theorem Site.Due.reaches_after {sites : Site → Prop} (due : site.Due apps tree pair)
    (onDisk : tree.OnDisk) (linkFree : tree.LinkFree) (returns : tree.Returns sites after) :
    after.Reaches pair.backup site.backup ∧ after.Reaches pair.chunk site.location := by
  obtain ⟨app, -, dueOn⟩ := due.exists_dueOn
  exact dueOn.reaches_after onDisk linkFree returns

/-- The chunks of two due sites are told apart. -/
theorem Site.Due.unique {otherPair : BackupPair} (due : site.Due apps tree pair)
    (otherDue : other.Due apps tree otherPair) (onDisk : tree.OnDisk) (linkFree : tree.LinkFree)
    (same : pair.chunk = otherPair.chunk) : site = other := by
  have unmoved := FileTree.Returns.refl (fun _ => False) tree
  have reaches := (due.reaches_after onDisk linkFree unmoved).2
  rw [same] at reaches
  exact Site.ext_location (reaches.unique (otherDue.reaches_after onDisk linkFree unmoved).2)

theorem Site.DueOn.due (due : site.DueOn app.outputDir tree pair) (rest : List Application) :
    site.Due (app :: rest) tree pair :=
  ⟨due.backup, by rw [Site.firstPair?, List.findSome?_cons, due.pair]⟩

/-- With one more application, a due backup is still due. -/
theorem Site.Due.exists_cons (due : site.Due rest tree pair) (app : Application) :
    ∃ first, site.Due (app :: rest) tree first := by
  cases own : site.pairOn? tree app.outputDir with
  | some first => exact ⟨first, Site.DueOn.due ⟨due.backup, own⟩ rest⟩
  | none => exact ⟨pair, due.backup, by rw [firstPair?, List.findSome?_cons, own]; exact due.pair⟩

theorem FileTree.Returns.firstPair?_eq {sites : Site → Prop} (returns : tree.Returns sites after)
    (linkFree : tree.LinkFree) (apps : List Application) (site : Site) :
    site.firstPair? apps after = site.firstPair? apps tree := by
  simp only [Site.firstPair?, returns.pairOn?_eq linkFree (returns.linkFree linkFree)]

/-- When the backups are moved that the first application leads to, the others are due on the
walks of the further applications. -/
theorem Site.due_cons_iff (linkFree : tree.LinkFree)
    (returns : tree.Returns (fun site => ∃ pair, site.DueOn app.outputDir tree pair) next)
    (gone : ∀ site pair, Site.DueOn app.outputDir tree site pair →
      next.entry? site.backup = none) :
    site.Due (app :: rest) tree pair ↔
      site.DueOn app.outputDir tree pair ∨ site.Due rest next pair := by
  have samePair := returns.firstPair?_eq linkFree rest site
  constructor
  · rintro ⟨⟨content, backup⟩, taken⟩
    rw [firstPair?, List.findSome?_cons] at taken
    cases own : site.pairOn? tree app.outputDir with
    | some first =>
        rw [own] at taken
        exact Or.inl ⟨⟨content, backup⟩, own.trans taken⟩
    | none =>
        rw [own] at taken
        refine Or.inr ⟨⟨content, ?_⟩, samePair.trans taken⟩
        rcases returns.site_cases site with ⟨-, same⟩ | ⟨-, ⟨first, due⟩, -⟩
        · exact same.trans backup
        · cases own.symm.trans due.pair
  · rintro (due | ⟨⟨content, backup⟩, taken⟩)
    · exact due.due rest
    · have before : tree.entry? site.backup = some (.file content) := by
        rcases returns.backup_cases site with same | away
        · exact same.symm.trans backup
        · cases away.symm.trans backup
      cases own : site.pairOn? tree app.outputDir with
      | some first => cases (gone site first ⟨⟨content, before⟩, own⟩).symm.trans backup
      | none =>
          refine ⟨⟨content, before⟩, ?_⟩
          rw [firstPair?, List.findSome?_cons, own]
          exact samePair.symm.trans taken

end Due

/-! ## Restoring one application and then the others -/

/-- What restoring applications may bring, in whatever order the walks come by the entries: the tree
that is left, and the chunks of the backups that were moved, or what has failed. -/
inductive RestoreCourse : List Application → FileTree → FileTree →
    Except Failure (List Path) → Prop
  | done {tree : FileTree} : RestoreCourse [] tree tree (.ok [])
  | blocked {app : Application} {rest : List Application} {tree : FileTree} {failure : Failure} :
      SeeksBackups tree app.outputDir (.error failure) →
      RestoreCourse (app :: rest) tree tree (.error failure)
  | stopped {app : Application} {rest : List Application} {tree after : FileTree}
      {pairs : List BackupPair} {failure : Failure} :
      SeeksBackups tree app.outputDir (.ok pairs) →
      restorePairs tree pairs = (after, .error failure) →
      RestoreCourse (app :: rest) tree after (.error failure)
  | moved {app : Application} {rest : List Application} {tree next after : FileTree}
      {pairs : List BackupPair} {chunks : List Path} {others : Except Failure (List Path)} :
      SeeksBackups tree app.outputDir (.ok pairs) →
      restorePairs tree pairs = (next, .ok chunks) →
      RestoreCourse rest next after others →
      RestoreCourse (app :: rest) tree after (others.map (chunks ++ ·))

/-- What restoring may come to: a course is taken, and the paths are told in order. -/
def RestoresTo (apps : List Application) (tree after : FileTree)
    (result : Except Failure (List Path)) : Prop :=
  ∃ told, RestoreCourse apps tree after told ∧
    result = told.map fun chunks => chunks.mergeSort Path.le

/-- All due backups are restored: each of them once, in the order of the paths of their chunks.
Restoring once more finds none, in whatever order. -/
structure Restored (apps : List Application) (tree after : FileTree) (chunks : List Path) :
    Prop where
  sorted : chunks.Pairwise fun first second => first.le second = true
  nodup : chunks.Nodup
  mem_iff : ∀ path, path ∈ chunks ↔
    ∃ site pair, Site.Due apps tree site pair ∧ pair.chunk = path
  moved : ∀ site pair, Site.Due apps tree site pair → ∃ content,
    site.Returned tree after (.file content) ∧
      ∀ follow, after.lookup follow pair.chunk = .ok (site.location, .file content)
  again : restoreAll after apps = (after, .ok [])
  againInAnyOrder : ∀ last result, RestoresTo apps after last result →
    last = after ∧ result = .ok []

section Restore

variable {tree after : FileTree} {app : Application} {apps rest : List Application}
  {pairs : List BackupPair} {told result : Except Failure (List Path)}

theorem restoreCourse_restoreApps (apps : List Application) (tree : FileTree) :
    RestoreCourse apps tree (restoreApps tree apps).1 (restoreApps tree apps).2 := by
  induction apps generalizing tree with
  | nil => exact .done
  | cons app rest inductionHypothesis =>
      have seeks := seeksBackups_findBackups tree app.outputDir
      rw [restoreApps]
      split
      next failure found =>
        rw [found] at seeks
        exact .blocked seeks
      next pairs found =>
        rw [found] at seeks
        split
        next next failure first => exact .stopped seeks first
        next next chunks first => exact .moved seeks first (inductionHypothesis next)

/-- The order in which restoring comes by the entries is one of the orders. -/
theorem restoresTo_restoreAll (apps : List Application) (tree : FileTree) :
    RestoresTo apps tree (restoreAll tree apps).1 (restoreAll tree apps).2 :=
  ⟨(restoreApps tree apps).2, restoreCourse_restoreApps apps tree, rfl⟩

/-- A course that succeeds has moved the backups of the first application, and then those of the
others. -/
theorem RestoreCourse.exists_of_cons {chunks : List Path}
    (course : RestoreCourse (app :: rest) tree after (.ok chunks)) :
    ∃ pairs next moved others, SeeksBackups tree app.outputDir (.ok pairs) ∧
      restorePairs tree pairs = (next, .ok moved) ∧
      RestoreCourse rest next after (.ok others) ∧ chunks = moved ++ others := by
  generalize ended : Except.ok chunks = told at course
  cases course with
  | blocked => cases ended
  | stopped => cases ended
  | moved seeks first further =>
      obtain ⟨others, rfl, rfl⟩ := exists_of_map_eq_ok ended.symm
      exact ⟨_, _, _, others, seeks, first, further, rfl⟩

/-- What a walk of an application has found is what is due on it. -/
theorem SeeksBackups.mem_iff_dueOn (seeks : SeeksBackups tree app.outputDir (.ok pairs))
    (onDisk : tree.OnDisk) (linkFree : tree.LinkFree) (pair : BackupPair) :
    pair ∈ pairs ↔ ∃ site, Site.DueOn app.outputDir tree site pair := by
  rw [(seeks.mem_iff_site onDisk linkFree).2]
  constructor
  · rintro ⟨site, content, own, backup⟩
    exact ⟨site, ⟨content, backup⟩, own⟩
  · rintro ⟨site, ⟨content, backup⟩, own⟩
    exact ⟨site, content, own, backup⟩

/-- For one application, due backups return and nothing else changes; when it succeeds, all of them
have returned. -/
theorem restoreApp_due (onDisk : tree.OnDisk) (linkFree : tree.LinkFree)
    (seeks : SeeksBackups tree app.outputDir (.ok pairs))
    (restored : restorePairs tree pairs = (after, result)) :
    tree.Returns (fun site => ∃ pair, site.DueOn app.outputDir tree pair) after ∧
      ∀ chunks, result = .ok chunks → chunks = pairs.map (·.chunk) ∧
        ∀ site pair, Site.DueOn app.outputDir tree site pair →
          after.entry? site.backup = none := by
  have mem_iff := seeks.mem_iff_dueOn onDisk linkFree
  have resolves : ∀ now,
      tree.Returns (fun site => ∃ pair, site.DueOn app.outputDir tree pair) now →
      ∀ site pair, Site.DueOn app.outputDir tree site pair → site.Resolves now pair := by
    intro now returns site pair due
    obtain ⟨toBackup, toChunk⟩ := due.reaches_after onDisk linkFree returns
    exact ⟨toBackup false, toChunk false⟩
  have each : ∀ pair ∈ pairs, ∃ site, (∃ pair, Site.DueOn app.outputDir tree site pair) ∧
      Site.DueOn app.outputDir tree site pair := by
    intro pair member
    obtain ⟨site, due⟩ := (mem_iff pair).mp member
    exact ⟨site, ⟨pair, due⟩, due⟩
  obtain ⟨returns, complete⟩ := restorePairs_returns resolves (.refl _ _) each restored
  refine ⟨returns, fun chunks succeeded => ?_⟩
  obtain ⟨shape, gone⟩ := complete chunks succeeded
  exact ⟨shape, fun site pair due => gone site pair due ((mem_iff pair).mpr ⟨site, due⟩)⟩

/-- However restoring ends, due backups return, and nothing else changes. -/
theorem RestoreCourse.due (course : RestoreCourse apps tree after told) (onDisk : tree.OnDisk)
    (linkFree : tree.LinkFree) :
    tree.Returns (fun site => ∃ pair, site.Due apps tree pair) after := by
  induction course with
  | done => exact .refl _ _
  | blocked seeks => exact .refl _ _
  | @stopped app rest tree after pairs failure seeks first =>
      refine (restoreApp_due onDisk linkFree seeks first).1.mono ?_
      rintro site ⟨pair, due⟩
      exact ⟨pair, due.due rest⟩
  | @moved app rest tree next after pairs chunks others seeks first further inductionHypothesis =>
      obtain ⟨step, complete⟩ := restoreApp_due onDisk linkFree seeks first
      obtain ⟨-, gone⟩ := complete chunks rfl
      have later := inductionHypothesis (step.onDisk onDisk) (step.linkFree linkFree)
      refine FileTree.Returns.trans (step.mono ?_) (later.mono ?_)
      · rintro site ⟨pair, due⟩
        exact ⟨pair, due.due rest⟩
      · rintro site ⟨pair, due⟩
        exact ⟨pair, (Site.due_cons_iff linkFree step gone).mpr (Or.inr due)⟩

theorem SeeksBackups.mem_chunks_iff (seeks : SeeksBackups tree app.outputDir (.ok pairs))
    (onDisk : tree.OnDisk) (linkFree : tree.LinkFree) (path : Path) :
    path ∈ pairs.map (·.chunk) ↔
      ∃ site pair, Site.DueOn app.outputDir tree site pair ∧ pair.chunk = path := by
  have mem_iff := seeks.mem_iff_dueOn onDisk linkFree
  rw [List.mem_map]
  constructor
  · rintro ⟨pair, member, same⟩
    obtain ⟨site, due⟩ := (mem_iff pair).mp member
    exact ⟨site, pair, due, same⟩
  · rintro ⟨site, pair, due, same⟩
    exact ⟨pair, (mem_iff pair).mpr ⟨site, due⟩, same⟩

/-- The chunks of the backups that a walk finds are told apart. -/
theorem SeeksBackups.nodup_chunks (seeks : SeeksBackups tree app.outputDir (.ok pairs))
    (onDisk : tree.OnDisk) (linkFree : tree.LinkFree) : (pairs.map (·.chunk)).Nodup := by
  have mem_iff := seeks.mem_iff_dueOn onDisk linkFree
  refine (seeks.mem_iff_site onDisk linkFree).1.map_on fun pair member other otherMember same => ?_
  obtain ⟨site, due⟩ := (mem_iff pair).mp member
  obtain ⟨otherSite, otherDue⟩ := (mem_iff other).mp otherMember
  obtain rfl := (due.due []).unique (otherDue.due []) onDisk linkFree same
  exact Option.some.inj (due.pair.symm.trans otherDue.pair)

/-- When restoring succeeds, all due backups have returned, and the chunks of all of them are told,
each of them once. -/
theorem RestoreCourse.complete {chunks : List Path}
    (course : RestoreCourse apps tree after (.ok chunks)) (onDisk : tree.OnDisk)
    (linkFree : tree.LinkFree) :
    chunks.Nodup ∧
      (∀ path, path ∈ chunks ↔ ∃ site pair, Site.Due apps tree site pair ∧ pair.chunk = path) ∧
      ∀ site pair, Site.Due apps tree site pair → after.entry? site.backup = none := by
  induction apps generalizing tree chunks with
  | nil =>
      cases course
      refine ⟨List.nodup_nil, fun path => iff_of_false List.not_mem_nil ?_, ?_⟩
      · rintro ⟨site, pair, due, -⟩
        cases due.pair
      · intro site pair due
        cases due.pair
  | cons app rest inductionHypothesis =>
      obtain ⟨pairs, next, moved, others, seeks, first, further, rfl⟩ := course.exists_of_cons
      obtain ⟨step, complete⟩ := restoreApp_due onDisk linkFree seeks first
      obtain ⟨rfl, gone⟩ := complete moved rfl
      have due_iff : ∀ site pair, Site.Due (app :: rest) tree site pair ↔
          site.DueOn app.outputDir tree pair ∨ site.Due rest next pair :=
        fun site pair => Site.due_cons_iff linkFree step gone
      have nextOnDisk := step.onDisk onDisk
      have nextLinkFree := step.linkFree linkFree
      obtain ⟨othersNodup, others_iff, othersGone⟩ :=
        inductionHypothesis further nextOnDisk nextLinkFree
      have moved_iff := seeks.mem_chunks_iff onDisk linkFree
      refine ⟨?_, fun path => ?_, fun site pair due => ?_⟩
      · refine List.nodup_append.mpr ⟨seeks.nodup_chunks onDisk linkFree, othersNodup, ?_⟩
        rintro path isMoved _ isOther rfl
        obtain ⟨site, pair, due, rfl⟩ := (moved_iff path).mp isMoved
        obtain ⟨other, otherPair, otherDue, same⟩ := (others_iff _).mp isOther
        -- the backup is away when the further applications are restored
        obtain rfl := (due.due rest).unique ((due_iff other otherPair).mpr (Or.inr otherDue))
          onDisk linkFree same.symm
        obtain ⟨content, stays⟩ := otherDue.backup
        cases (gone site pair due).symm.trans stays
      · rw [List.mem_append, moved_iff, others_iff, ← exists_or]
        refine exists_congr fun site => ?_
        rw [← exists_or]
        refine exists_congr fun pair => ?_
        rw [due_iff, or_and_right]
      · rcases (due_iff site pair).mp due with dueOn | furtherDue
        · exact (further.due nextOnDisk nextLinkFree).gone (gone site pair dueOn)
        · exact othersGone site pair furtherDue

/-- When restoring has succeeded, no backup is due. -/
theorem RestoreCourse.settled {chunks : List Path}
    (course : RestoreCourse apps tree after (.ok chunks)) (onDisk : tree.OnDisk)
    (linkFree : tree.LinkFree) (site : Site) (pair : BackupPair) :
    ¬ Site.Due apps after site pair := by
  have returns := course.due onDisk linkFree
  obtain ⟨-, -, gone⟩ := course.complete onDisk linkFree
  rintro ⟨⟨content, stays⟩, taken⟩
  rcases returns.backup_cases site with same | away
  · have due : Site.Due apps tree site pair :=
      ⟨⟨content, same.symm.trans stays⟩,
        (returns.firstPair?_eq linkFree apps site).symm.trans taken⟩
    cases (gone site pair due).symm.trans stays
  · cases away.symm.trans stays

/-- When restoring has succeeded, all walks can be taken again. -/
theorem RestoreCourse.enterable {chunks : List Path}
    (course : RestoreCourse apps tree after (.ok chunks)) (onDisk : tree.OnDisk)
    (linkFree : tree.LinkFree) : Enterable after apps := by
  induction apps generalizing tree chunks with
  | nil => exact fun app absurdity => absurd absurdity List.not_mem_nil
  | cons app rest inductionHypothesis =>
      obtain ⟨pairs, next, moved, others, seeks, first, further, -⟩ := course.exists_of_cons
      obtain ⟨step, -⟩ := restoreApp_due onDisk linkFree seeks first
      have whole := course.due onDisk linkFree
      intro other member
      rcases List.mem_cons.mp member with rfl | member
      · exact whole.barrier?_eq_none onDisk linkFree seeks.free
      · exact inductionHypothesis further (step.onDisk onDisk) (step.linkFree linkFree) other
          member

/-- When no backup is due, a walk finds none. -/
theorem SeeksBackups.eq_nil_of_settled (seeks : SeeksBackups tree app.outputDir (.ok pairs))
    (onDisk : tree.OnDisk) (linkFree : tree.LinkFree)
    (settled : ∀ site pair, ¬ Site.Due (app :: rest) tree site pair) : pairs = [] := by
  refine List.eq_nil_iff_forall_not_mem.mpr fun pair member => ?_
  obtain ⟨site, due⟩ := (seeks.mem_iff_dueOn onDisk linkFree pair).mp member
  exact settled site pair (due.due rest)

/-- When all walks can be taken and no backup is due, restoring changes nothing. -/
theorem RestoreCourse.eq_of_settled (course : RestoreCourse apps tree after told)
    (onDisk : tree.OnDisk) (linkFree : tree.LinkFree) (enterable : Enterable tree apps)
    (settled : ∀ site pair, ¬ Site.Due apps tree site pair) : after = tree ∧ told = .ok [] := by
  induction course with
  | done => exact ⟨rfl, rfl⟩
  | @blocked app rest tree failure seeks =>
      cases seeks with
      | blocked member barrier =>
          cases (enterable app List.mem_cons_self _ member).symm.trans barrier
  | stopped seeks first =>
      obtain rfl := seeks.eq_nil_of_settled onDisk linkFree settled
      cases first
  | @moved app rest tree next after pairs chunks others seeks first further inductionHypothesis =>
      obtain rfl := seeks.eq_nil_of_settled onDisk linkFree settled
      cases first
      have restSettled : ∀ site pair, ¬ Site.Due rest tree site pair := by
        intro site pair due
        obtain ⟨first, firstDue⟩ := due.exists_cons app
        exact settled site first firstDue
      obtain ⟨rfl, rfl⟩ := inductionHypothesis onDisk linkFree
        (fun other member => enterable other (List.mem_cons_of_mem _ member)) restSettled
      exact ⟨rfl, rfl⟩

/-- When restoring succeeds, due backups are restored and none is left to be restored. -/
theorem RestoreCourse.restored {chunks : List Path}
    (course : RestoreCourse apps tree after (.ok chunks)) (onDisk : tree.OnDisk)
    (linkFree : tree.LinkFree) : Restored apps tree after (chunks.mergeSort Path.le) := by
  have returns := course.due onDisk linkFree
  obtain ⟨distinct, mem_iff, gone⟩ := course.complete onDisk linkFree
  have sorted := chunks.mergeSort_perm Path.le
  have settled := course.settled onDisk linkFree
  have again : ∀ last result, RestoresTo apps after last result →
      last = after ∧ result = .ok [] := by
    rintro last _ ⟨told, further, rfl⟩
    obtain ⟨rfl, rfl⟩ := further.eq_of_settled (returns.onDisk onDisk) (returns.linkFree linkFree)
      (course.enterable onDisk linkFree) settled
    refine ⟨rfl, ?_⟩
    show Except.ok (([] : List Path).mergeSort Path.le) = .ok []
    rw [List.mergeSort_nil]
  refine ⟨Path.pairwise_mergeSort chunks, sorted.nodup_iff.mpr distinct,
    fun path => sorted.mem_iff.trans (mem_iff path), fun site pair due => ?_, ?_, again⟩
  · obtain ⟨content, backup⟩ := due.backup
    rcases returns.site_cases site with ⟨-, same⟩ | ⟨entry, -, returned⟩
    · cases (gone site pair due).symm.trans (same.trans backup)
    · obtain rfl : entry = .file content :=
        Option.some.inj (returned.backupBefore.symm.trans backup)
      have reaches := (due.reaches_after onDisk linkFree returns).2
      exact ⟨content, returned, fun follow => reaches.lookup returned.chunk⟩
  · obtain ⟨sameTree, noPaths⟩ := again _ _ (restoresTo_restoreAll apps after)
    exact Prod.ext sameTree noPaths

/-- In a tree without links, restoring applications moves backups that are due and changes nothing
else, and each backup is as before or has moved completely. When it succeeds, all of them are
restored. This holds in whatever order the walks come by the entries, and so for the order in which
the tree holds them. -/
theorem restoreAll_exact (onDisk : tree.OnDisk) (linkFree : tree.LinkFree)
    (apps : List Application) :
    RestoresTo apps tree (restoreAll tree apps).1 (restoreAll tree apps).2 ∧
      ∀ after result, RestoresTo apps tree after result →
        tree.Returns (fun site => ∃ pair, site.Due apps tree pair) after ∧
          (∀ site : Site, (after.entry? site.location = tree.entry? site.location ∧
              after.entry? site.backup = tree.entry? site.backup) ∨
            ∃ content, site.Returned tree after (.file content)) ∧
          ∀ chunks, result = .ok chunks → Restored apps tree after chunks := by
  refine ⟨restoresTo_restoreAll apps tree, ?_⟩
  rintro after _ ⟨told, course, rfl⟩
  have returns := course.due onDisk linkFree
  refine ⟨returns, fun site => ?_, fun chunks succeeded => ?_⟩
  · rcases returns.site_cases site with same | ⟨entry, ⟨pair, due⟩, returned⟩
    · exact Or.inl same
    · obtain ⟨content, backup⟩ := due.backup
      obtain rfl : entry = .file content :=
        Option.some.inj (returned.backupBefore.symm.trans backup)
      exact Or.inr ⟨content, returned⟩
  · obtain ⟨paths, rfl, rfl⟩ := exists_of_map_eq_ok succeeded
    exact course.restored onDisk linkFree

end Restore

/-! ## The single chunk with its backup -/

/-- The tree with the single chunk after the chunk was overwritten. -/
def overwrittenTree : FileTree :=
  (loneTree "a".toUTF8).put loneSite.location (.file "x".toUTF8)

/-- The tree with the single chunk after the chunk was pruned. -/
def prunedTree : FileTree := overwrittenTree.put loneSite.backup (.file "a".toUTF8)

theorem chunk_noDirectory :
    FileTree.entry? (loneTree "a".toUTF8) loneSite.location ≠ some .directory := by
  rw [(holds_loneTree _).chunk]
  simp

theorem backup_noDirectory : overwrittenTree.entry? loneSite.backup ≠ some .directory := by
  have vacant : overwrittenTree.entry? loneSite.backup = none := rfl
  rw [vacant]
  simp

theorem evolves_prunedTree : (loneTree "a".toUTF8).Evolves loneSite.Places prunedTree :=
  (FileTree.Evolves.put loneSite.location_ne_nil loneSite.places_location chunk_noDirectory _).trans
    (FileTree.Evolves.put loneSite.backup_ne_nil loneSite.places_backup backup_noDirectory _)

theorem holds_prunedTree :
    prunedTree.Holds loneSite ⟨"x".toUTF8, some (.file "a".toUTF8)⟩ :=
  ⟨evolves_prunedTree.opened (holds_loneTree _).opened, by decide, rfl, rfl⟩

theorem onDisk_prunedTree : prunedTree.OnDisk := by
  have chunkName : FileTree.EntryName loneSite.name := ⟨loneSite.isName, by decide⟩
  have backupName : FileTree.EntryName loneSite.backupName :=
    ⟨loneSite.isName_backupName, by decide⟩
  have overwritten : overwrittenTree.OnDisk :=
    (onDisk_loneTree "a".toUTF8).put rfl chunkName chunk_noDirectory
  exact overwritten.put rfl backupName backup_noDirectory

/-- With any number of points on the way, the walk of the single application can be taken. -/
theorem exists_findBackups_prunedTree {count : Nat} (short : 2 * count + 5 < FileTree.pathBound) :
    ∃ pairs, findBackups prunedTree (dottedDir count) = .ok pairs := by
  have free : (prunedTree.entriesBelow (dottedDir count)).findSome? prunedTree.barrier? = none := by
    rw [List.findSome?_eq_none_iff]
    rintro ⟨path, entry⟩ listed
    cases entry with
    | file content => rfl
    | link target => rfl
    | directory =>
        have enters : prunedTree.Enters (dottedDir count) := enters_dottedDir rfl short
        have start : (loneTree "a".toUTF8).Enters (dottedDir count) := enters_dottedDir rfl short
        obtain ⟨names, more, rfl, stands⟩ := (FileTree.mem_entriesBelow_iff enters).mp listed
        have below : (dottedDir count).location ++ names ≠ [] := by simp [more]
        rw [← FileTree.entry?_of_ne_nil _ below, evolves_prunedTree.directory_iff,
          FileTree.entry?_of_ne_nil _ below] at stands
        exact absurd rfl (entriesBelow_loneTree short
          ((FileTree.mem_entriesBelow_iff start).mpr ⟨names, more, rfl, stands⟩)).1
  exact ⟨_, by rw [findBackups, free]⟩

/-- The pruned chunk is restored, and its path is told. -/
theorem restoreAll_exact_prunedTree :
    prunedTree.OnDisk ∧ prunedTree.LinkFree ∧ ∃ after chunks,
      restoreAll prunedTree [loneApp 0] = (after, .ok chunks) ∧
        (dottedDir 0).spelled [loneSite.name] ∈ chunks ∧
        prunedTree.entry? loneSite.location = some (.file "x".toUTF8) ∧
        after.entry? loneSite.location = some (.file "a".toUTF8) ∧
        after.entry? loneSite.backup = none := by
  have linkFree := evolves_prunedTree.linkFree (linkFree_loneTree _)
  obtain ⟨chunks, run⟩ := exists_restoreAll_loneTree evolves_prunedTree holds_prunedTree
  obtain ⟨anOrder, exact⟩ := restoreAll_exact onDisk_prunedTree linkFree [loneApp 0]
  rw [run] at anOrder
  have restored := (exact _ _ anOrder).2.2 chunks rfl
  have enters : prunedTree.Enters (dottedDir 0) := enters_dottedDir rfl (by decide)
  have own : loneSite.pairOn? prunedTree (loneApp 0).outputDir =
      some (loneSite.pairAlong (dottedDir 0) []) := by
    refine (Site.pairOn?_eq_some_iff linkFree).mpr ⟨[], ⟨⟨["dist"], ?_, rfl⟩, by decide⟩, rfl⟩
    have looked := enters.lookup true
    rw [location_dottedDir] at looked
    exact FileTree.opens_of_lookup linkFree looked
  have due : loneSite.Due [loneApp 0] prunedTree (loneSite.pairAlong (dottedDir 0) []) :=
    Site.DueOn.due ⟨⟨_, holds_prunedTree.backup⟩, own⟩ []
  obtain ⟨content, returned, -⟩ := restored.moved _ _ due
  exact ⟨onDisk_prunedTree, linkFree, _, chunks, run, (restored.mem_iff _).mpr ⟨_, _, due, rfl⟩,
    holds_prunedTree.chunk, (holds_loneTree _).chunk, returned.backup⟩

/-- Without a bound on the spelled paths, restoring may succeed and leave a backup where it is: with
2040 points on the way to the single chunk, nothing is restored. -/
theorem not_restoreAll_exact :
    ¬ ∀ (apps : List Application) (tree after : FileTree) (chunks : List Path),
      tree.OnDisk → tree.LinkFree → restoreAll tree apps = (after, .ok chunks) →
      ∀ (site : Site) (content : ByteArray), tree.entry? site.backup = some (.file content) →
        (∃ app ∈ apps, ∃ top, tree.lookup true app.outputDir = .ok (top, .directory) ∧
          top <+: site.directory) →
        after.entry? site.location = some (.file content) ∧ after.entry? site.backup = none := by
  intro claim
  have exists_count : ∃ count, 2 * count + 5 < FileTree.pathBound ∧
      FileTree.pathBound ≤ 2 * count + 19 := ⟨2040, by decide, by decide⟩
  obtain ⟨count, short, long⟩ := exists_count
  have enters : prunedTree.Enters (dottedDir count) := enters_dottedDir rfl short
  have top := enters.lookup true
  rw [location_dottedDir] at top
  obtain ⟨pairs, found⟩ := exists_findBackups_prunedTree short
  obtain rfl := findBackups_dottedDir short long evolves_prunedTree found
  have run : restoreAll prunedTree [loneApp count] = (prunedTree, .ok []) := by
    rw [restoreAll, restoreApps, loneApp, found]
    show (prunedTree, Except.ok (([] : List Path).mergeSort Path.le)) = (prunedTree, .ok [])
    rw [List.mergeSort_nil]
  have moved := claim _ _ _ _ onDisk_prunedTree (evolves_prunedTree.linkFree (linkFree_loneTree _))
    run loneSite _ holds_prunedTree.backup
    ⟨loneApp count, List.mem_singleton_self _, _, top, List.prefix_refl _⟩
  cases holds_prunedTree.backup.symm.trans moved.2

end ChunkPrune
