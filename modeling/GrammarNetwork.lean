import GrammarNetwork.CommandLine
import GrammarNetwork.Main
import GrammarNetwork.Proofs.Actions
import GrammarNetwork.Proofs.Agreement
import GrammarNetwork.Proofs.Canonical
import GrammarNetwork.Proofs.Causes
import GrammarNetwork.Proofs.CharSets
import GrammarNetwork.Proofs.Collisions
import GrammarNetwork.Proofs.Complements
import GrammarNetwork.Proofs.Conflicts
import GrammarNetwork.Proofs.Descriptions
import GrammarNetwork.Proofs.Dispatch
import GrammarNetwork.Proofs.Drawings
import GrammarNetwork.Proofs.Flaws
import GrammarNetwork.Proofs.Listings
import GrammarNetwork.Proofs.Messages
import GrammarNetwork.Proofs.Priorities
import GrammarNetwork.Proofs.Properties
import GrammarNetwork.Proofs.Retention
import GrammarNetwork.Proofs.Stamps
import GrammarNetwork.Proofs.Tokens
import GrammarNetwork.Proofs.Unions
import GrammarNetwork.Proofs.Unwinding
import GrammarNetwork.Proofs.Plots
import GrammarNetwork.Proofs.Straight
import GrammarNetwork.Proofs.Namings
import GrammarNetwork.Proofs.Spelling
