import PropertyPatterns.Formula.Semantics
import PropertyPatterns.Formula.WeakUntil
import PropertyPatterns.Main
import PropertyPatterns.Proofs.ClosedScopes
import PropertyPatterns.Proofs.EliminationAgreement
import PropertyPatterns.Proofs.TimedTokens
import PropertyPatterns.Proofs.StayingOpen
import PropertyPatterns.Proofs.FirstOpening
import PropertyPatterns.Proofs.Translation
import PropertyPatterns.Proofs.NeverClosing
import PropertyPatterns.Proofs.Anchors
import PropertyPatterns.Proofs.ErrorReports
import PropertyPatterns.Proofs.CountedStretches
import PropertyPatterns.Proofs.AnsweredChains
import PropertyPatterns.Proofs.ChainSchedules
import PropertyPatterns.Proofs.ReversedIntervals
import PropertyPatterns.Proofs.BoundInventory
import PropertyPatterns.Proofs.UnambiguousRendering
import PropertyPatterns.Proofs.EliminationRounds
import PropertyPatterns.Proofs.EliminationMeaning
import PropertyPatterns.Proofs.AtomInventory
import PropertyPatterns.Proofs.PatternDocuments
import PropertyPatterns.Proofs.WellFormedIntervals
import PropertyPatterns.Proofs.Contingency
import PropertyPatterns.Proofs.ProbabilisticQueries
import PropertyPatterns.Proofs.EmptyIntervals
import PropertyPatterns.Proofs.StandingOperands
import PropertyPatterns.Proofs.NormalizedSpacing
import PropertyPatterns.Proofs.ReasonOrder
import PropertyPatterns.Proofs.MissingSymbols
