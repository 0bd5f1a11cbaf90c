import EventSchema.Main
import EventSchema.Schema.Equality
import EventSchema.Proofs.Reading
import EventSchema.Proofs.Name
import EventSchema.Proofs.Resolution
import EventSchema.Proofs.Closing
import EventSchema.Proofs.Writing
import EventSchema.Proofs.Checks
import EventSchema.Proofs.Rereading
import EventSchema.Proofs.Marks
import EventSchema.Proofs.RoundTrip
import EventSchema.Proofs.WriteRead
import EventSchema.Proofs.Enclosure
import EventSchema.Proofs.Writings
import EventSchema.Proofs.Soundness
import EventSchema.Proofs.Declared
import EventSchema.Proofs.Assembly
import EventSchema.Proofs.References
import EventSchema.Proofs.Outline
import EventSchema.Proofs.Agreement
import EventSchema.Proofs.DeclaredRoundTrip
import EventSchema.Proofs.Places
import EventSchema.Proofs.Writable
import EventSchema.Proofs.Mentions
import EventSchema.Proofs.DeclaredNames
import EventSchema.Proofs.TypeStrings
import EventSchema.Proofs.Referring
import EventSchema.Proofs.Runs
import EventSchema.Proofs.Handles
import EventSchema.Proofs.DeclaredWritable
import EventSchema.Proofs.Reordering
import EventSchema.Proofs.NativeStrings
import EventSchema.Proofs.Shapes
import EventSchema.Proofs.Unions
import EventSchema.Proofs.ExtraAttributes
import EventSchema.Proofs.TypeTexts
import EventSchema.Proofs.Refusal
import EventSchema.Proofs.Namespaces
import EventSchema.Proofs.Unrolling
import EventSchema.Proofs.Recursion
import EventSchema.Proofs.Substitution
import EventSchema.Proofs.Rounding
import EventSchema.Proofs.Numerals
import EventSchema.Proofs.Printing
import EventSchema.Proofs.Reports
