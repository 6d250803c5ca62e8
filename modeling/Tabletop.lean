import Tabletop.Command
import Tabletop.Journal
import Tabletop.Main
import Tabletop.Notation.Descent
import Tabletop.Roller.Tape
import Tabletop.Proofs.Notation.Grammar
import Tabletop.Proofs.Notation.Suffixes
import Tabletop.Proofs.Notation.Steps
import Tabletop.Proofs.Notation.Completeness
import Tabletop.Proofs.Notation.Soundness
import Tabletop.Proofs.Roll.Denotable
import Tabletop.Proofs.Notation.Image
import Tabletop.Proofs.Notation.Lexing
import Tabletop.Proofs.Notation.Rendering
import Tabletop.Proofs.Notation.Spacing
import Tabletop.Proofs.Notation.Denotation
import Tabletop.Proofs.Notation.Places
import Tabletop.Proofs.Notation.Faults
import Tabletop.Proofs.Notation.Cuts
import Tabletop.Proofs.Notation.Continuation
import Tabletop.Proofs.Notation.Relocation
import Tabletop.Proofs.Descent.Rolls
import Tabletop.Proofs.Session.Budget
import Tabletop.Proofs.Session.Account
import Tabletop.Proofs.Session.Audit
import Tabletop.Proofs.Session.Replay
import Tabletop.Proofs.Notation.Tiling
import Tabletop.Proofs.Notation.Finality
import Tabletop.Proofs.Session.Symbols
import Tabletop.Proofs.Session.Journal
import Tabletop.Proofs.Session.Conversation
import Tabletop.Proofs.Roll.Selection
import Tabletop.Proofs.Session.Explosions
import Tabletop.Proofs.Session.Compounding
import Tabletop.Proofs.Session.Redrawing
import Tabletop.Proofs.Session.Bounds
import Tabletop.Proofs.Session.Flattening
import Tabletop.Proofs.Notation.Insertion
import Tabletop.Proofs.Roll.Surroundings
import Tabletop.Proofs.Notation.Handoff
import Tabletop.Proofs.Roll.Arrangement
import Tabletop.Proofs.Throw.Gives
import Tabletop.Proofs.Session.Arrangement
import Tabletop.Proofs.Notation.History
import Tabletop.Proofs.Session.Worth
import Tabletop.Proofs.Descent.Safety
