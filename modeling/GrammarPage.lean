import GrammarPage.Command.Arguments
import GrammarPage.Command.Run
import GrammarPage.Command.Usage
import GrammarPage.Main
import GrammarPage.Files.Folder
import GrammarPage.Session
import GrammarPage.Proofs.Canonical.Flat
import GrammarPage.Proofs.Canonical.Quotation
import GrammarPage.Proofs.Canonical.Unambiguous
import GrammarPage.Proofs.Canonical.Meaning
import GrammarPage.Proofs.Canonical.Shown
import GrammarPage.Proofs.Layout.Segments
import GrammarPage.Proofs.Layout.Declared
import GrammarPage.Proofs.Layout.Painted
import GrammarPage.Proofs.Layout.Names
import GrammarPage.Proofs.Layout.Leads
import GrammarPage.Proofs.Layout.Cuts
import GrammarPage.Proofs.Page.Legible
import GrammarPage.Proofs.Page.Landmarks
import GrammarPage.Proofs.Page.Linked
import GrammarPage.Proofs.Page.Document
import GrammarPage.Proofs.Page.Resolved
import GrammarPage.Proofs.Interchange.Accepted
import GrammarPage.Proofs.Interchange.Saved
import GrammarPage.Proofs.Page.Faithful
import GrammarPage.Proofs.Page.Unique
import GrammarPage.Proofs.Page.Fragment
import GrammarPage.Proofs.Interchange.Located
import GrammarPage.Proofs.Settings.Lenient
import GrammarPage.Proofs.Canonical.Spaced
import GrammarPage.Proofs.Grammar.Unseen
import GrammarPage.Proofs.Grammar.Equivalence
import GrammarPage.Proofs.Grammar.Transplanted
import GrammarPage.Proofs.Session.Enriched
import GrammarPage.Proofs.Session.Linked
import GrammarPage.Proofs.Command.Written
import GrammarPage.Proofs.Command.Reported
import GrammarPage.Proofs.Session.Emitters
import GrammarPage.Proofs.Layout.Independent
import GrammarPage.Proofs.Layout.Minimal
import GrammarPage.Proofs.Layout.Respelled
import GrammarPage.Proofs.Layout.PlainText
import GrammarPage.Proofs.Layout.Interrupted
import GrammarPage.Proofs.Layout.Leaves
import GrammarPage.Proofs.Layout.Continued
import GrammarPage.Proofs.Grammar.Differences
import GrammarPage.Proofs.Session.Offered
import GrammarPage.Proofs.Session.Carried
import GrammarPage.Proofs.Grammar.Inspected
