import QuantumNode.Files.Tree

/-
  The templates that new applications can be started from, as a
  tree of files with one directory for each.  The files are kept
  in one text, and the text is kept in one large number.  Each
  step takes a sign out of the number: a letter, or the length of
  a part that stands in the text already, after which its
  distance is taken.  The more often a sign was met, the less of
  the number it needs.
-/

namespace QuantumNode.Template

def base : Nat := 88

def digit (c : Char) : Nat :=
  (if c = '~' then '\\' else c).toNat - '#'.toNat

def letters : Nat := 96

def letter (sign : Nat) : Char :=
  if sign = 94 then '\n' else if sign = 95 then '±' else Char.ofNat (' '.toNat + sign)

-- The lengths of parts follow the letters.
def lengthOf (sign : Nat) : Nat :=
  sign - letters + 3

-- The sign that a remainder falls to, and the number that is left.
def pick : List Nat → Nat → Nat → Nat × Nat
  | [], number, _ => (0, number)
  | weight :: rest, number, remainder =>
    if remainder < weight then (0, number * weight + remainder)
    else (pick rest number (remainder - weight)).map (· + 1) id

def take (weights : List Nat) (number : Nat) : Nat × Nat :=
  let total := weights.foldl (· + ·) 0
  pick weights (number / total) (number % total)

-- What stands a distance back, up to some length, stands at the end once more.
def again (distance : Nat) : Nat → Array Char → Array Char
  | 0, done => done
  | length + 1, done =>
    again distance length (done.push (done.getD (done.size - distance) ' '))

def unpack (signs distances : List Nat) (done : Array Char) : Nat → Nat → Array Char
  | 0, _ => done
  | steps + 1, number =>
    let (sign, number) := take signs number
    let signs := signs.modify sign (· + 8)
    if sign < letters then unpack signs distances (done.push (letter sign)) steps number
    else
      let (bits, number) := take distances number
      let distance := 1 <<< bits + number % 1 <<< bits
      let done := again distance (lengthOf sign) done
      unpack signs (distances.modify bits (· + 8)) done steps (number >>> bits)

-- Paths and contents of all files, with a semicolon after each.
def packed : String := "
*3NC;ezls:-Yx.Mm$4z&#6)$DFEs3<:_9hIb~Sm]+5VdP~K1x&EEE<hF41wS3No~7UXA$/p>u']d6'^Zx0NXEQInp/P';BgGW*aO
^'^&hEpfKNWqH%4&HRkMr+uYvzl'T<(f&'Z9qGHCYpFJ0DI=H:6Q]8X~;Kw+19>eVtP&(0',T:Tt0$b5picP(J4_,4`SXQsKovsG
4ZwtSIcg#quH9~:CHj$$xB9Eb&fA9T?ijhsF7ZXD)VG+oq(K^iAA=R1l7RI$Wo8D0kLzk$,O(D9YDyrdLIk7==`:~JUhiiNB$D6,
ZO1^fsv>o%xKa`$+J9f2xo$7#CLX(8>#tac>-)V<'=G7hE[yDk+`D^N@?dv/J)Zyy@`vJ,bxf[L3G,KLX[~J5)X]6A?pMLGSZeOv
B'D:(Lx'hanAZ:RqMLVb<<4I'^RwkT*S7NohSl<hOZ^zj(~[>V:N(+uRK?pdcAfxbjBrTgMtqcjSr`3pXqiN,scAI&gld8GnJ8D5
$d@thR`K@*s(JLwsx6?_Pm4UW&1NCP:%6a.475KIj,PSRgl+gQ6/*/3^I:AGXI(A3X9&*)j(k1<yTka'oK8;Ghh&V;F=g`E>izL<
)r7txup<k9='qr^rX@;r?:<zUa?wtAWJJ.?6/=7-@@GWQbwx~taVY.rdi8BDX6@aLw.x_RN8`Wg*O-r/B9BY@2JPYV&#oO0Vvs4_
pGUl,a5kbo5;_BjmltH<gi236%@H=[JhGt8t`L9&)G'NC2frVx@@j^t_s18,O`tjd:^x)gs^'*lk'H/Pk1a_At/CeS&qllg`~U1Q
pi#~<ZbUh=2&5d4&c2-)TMX0NQYXs6EXW^7Zvtbw2X3a;<0*n:a'R['NX6BinIwX+qmjw9)<>PC9m'fOPvjz$ynLIS5R?7w>EA`/
u+MfUdlbNGHSn7AMd#D@.wKZxaGJI.=sT;XiTY_#%2Y^oM.F$z5?kQlnmW`&@][py~E7R$&sD9r'a0L?VSnr=dE.soDNm0h@y0ca
J+wxLhwK~8UYk;b]_l8]w.I^`AgxI^IUCSw&F4NPkex.;R=]E4mT_>30#>Y=&QhfX5MLj$dM_2^G3L=[=haq]RGoJl8xF3f1*z$h
IW.vqv.BbyOxLb&-yRe,C)9,by-#,*.vDa9HYZ^]MP[/iniVymJ<_3(nLm5H:Y0U)WH(1(zW<B`G5d>K4d6Ew`gx>L~<iS&AIA5_
N;d*a?wna^`=R:ZY^T9;cYf5cl5Ow~bqW&/'/F31oCK[cJY2F(VL4Z4/kn%r20N?7N24Ha;r6AQBimvGdyh6UHQr7/=BXde`i/b.
tEvQi#-JJwL[L~8U?gd*s++JtV]X)+cgl-,yL#[s($fdLgw6UG~K)4DxpA:lSgXFsUkBxKV$r0Pn](5SvX2L5l7S*xD)kI7;/K2_
SbtjI$0:16Xfybu'*W[p&UYa0;p_c*;hW7SJZ+[jaRg6yAC43~5.;d$-lsL$]ppM*S1rTHe&v_SN.D:K^02@>Q_Okw78QBBC)~.1
74^^-^S,B</;29-Q4#At7^+OLx.#*nG>oTO+/uS<HWWB2Iumjj6>Wb5Wh,47MrFsz*%RG~:YQ~sM00vn+W=$`cR>qYz[lf#T=PMi
'zSi*+(*+(EVz>a#0VcuFEL:XOe<,d084kej,`=*1);KqD[*KWWj@p9/]H&CX-W+5Tlz7hh):Rik3SDCOUO;~Q3o[9(TPt.N3IB[
W_eQvQD]HESH[+tgD%r,dV)O3c?^VBzCP?>W`+'3MFX^sz,9#XvG:?Tcd]h>Q7G3zqn0U1k~1h/jXyaLZ68~eB%1x/mBBne*0onc
?]d<PZGU2`6oo6u9c$.ae/F7DD83')rGRad:-Ap~.bynwjpTTonr>p:Wk^ly'?-;e_fTSq7iVdY_]2j*;`D6;yQ_&aJ0IgDIKne#
.k*i//a$6bX6kzbymKi>R#fhrsWz*%j=*7hHn4nZ]Fh.E2Gunq~va7B4Uu=Qe`KpYl&Tb9&)n2kzz7n39~#G#F),_'_;^a/-VgH5
vy8T$phk&s)J5i~Hq,cpg^:-r*(K9Ymwdn*i6_xh%A%>YxC3^jrD@LQ+aLtzoyQ=3#.83QN$aD7J>-2DR~rZn6NR?BRf;(F~3<9g
VTqx?'w_W;Z=:ttG1q<UL:*P#rGPJ81/Kc;>>tt%Leq^Mx6?sb5aj7PWyJ&7?qJo5.R+W-d5$suAA.A-ui;L;8Xa;P;&lvM~xvKH
%&LNr&vzl]tBHFxN_gO9Kh.lo,osS=^SUsT*~g(72,3IqRTN7x<OM2ehky,bi^QxiRdtl@W1dD]%Z`n*ksQ+XUP.p+xg&oXriSEo
Z*_@X7CxDn`I]>G8EtHDP`:5%1m>,pZk>=u=&t'$bG*)vR*TbqI_1B/yW@4bypHY1/+X;#=6K1yp8JFcKo%sXe&7>CB1*P'dUs~)
+:p3za(#)M`CfS5zg:`;,y_fhK>3:.o1_s/QJNiU9%p@4GB`mnkzB?Q$oD+KP)Xz#Ixz;sVmv:`+CRTlG;[_Vo(3<PPt`&k0VMM5
@`9Js+0Bye6/F$<6-N.c<QiE]YasAdpTUl5aGuG???=k_'q'qnCb$Lms+78/w#qz-#(s[itPh~fhXE4Smd>kUc~ga-8]/_aklc8[
hLb*/TOsg0_sa44I2t1lP%UQTa*PdXg5J*UM9MbFt0z#^lW'_4n><wLP,`VGO`ICp4ie2CS?8MC(Z?z~Rg=Dx'he34+Xmg.%g[o>
Q=QX2_sZ%'o>1[7zY^i7-b&kbxPNshIU(=k+])tTrXszQTL]CaQB-=spNooa4XDR1M=uk/(rOr@+2jrbJ+44w+7u)+=,-qsN_w%2
nj%,P[u~,c@oMQm2OuizsHq&n7MqW*03XEw_8Vv=<tASFqlg(z+w7W?y(Izrg6S[YSf^V8-i%]/(<hjXuR:Bdnm46$WUetpt@&UZ
Uh),Xxf1D@FjNaXR6DGBu/n*[7X5F(;OUE#~FT*En]x]m>=Ac'O3T0XmA$6WJ(I'E-+~%R-=J7<RTx_z@ynToINPJeetE1*l#`j6
R52kZG&)j~s?:4E/FFWXAakw>O~ZOZ^An.dK~RvpX]l_q0w8YtG1A(yDco'Z3z/ybAhCrWe5BhU+qXTUtqi&gLZOV?aVE9dj%j-T
m'^+V@S_gLBEEE5+1aC=2ifYMg-j;WfH?hk.Hrm~A9e>KyXFn%(#(M:Molx2sbv>kEDX-:yw&Hu=&2Fb'o-Q,%)+qHUf%%5'?N]X
%bCA@Q=E*nRt`-]0/9`PEL=HDGAgA-9ZQxhY.uIE>ugIfw[k@FGQE3v&wl,dYLeucRyV7T91_1QaZ4RFOUBjWz4~1zMhJi_iv0(=
5bWDU$a4QwpH5:0U^TAc1?nc;(K@mJ'cePdjgv(p1JUi/21<yVrP/QC~$-nxNj9s>_f~)~QH5CUICK0#HX4PDN]I<DOIO>kkSFi&
lv'GI$O>co#mlHERu+k0g)ESY$O6U?mR2c]GJ`%DiHBXIaK_vpZNzo+PTc;O%teY2d`=m?fNKl4`&7ee&ww^`.BCg;lJ(Us&&m6&
yUtE1sU_jVEHp.kbZR)SY;w8rC-m8^(DOv20LNb-X]%I,7)]RZtYs*&q160jMDxT2w^b0`4Zz9~5ngN8@VP^pC:2Hx0XEg?yVeSC
&Un%<FaU:YULE[)a7uMftN&TYr0L6&*K$jH5c=Q5mk3oX51:H'yo(>6VQvy';YcNt%J_ia:?QdF4^C/.+K9^pj%gfC]UJeJfSk>>
?StA4)20q=8v2(/ZHe1^?w13gL`h/1O6HZ*r*_^bZ#5Lbd(:yR&o=#KkuQD`W0oe>X%Ayp5O@HRAi5;YCy?InU-d56JH/gHXM;Ph
8Vq--sI~KY+DYy%nG6>J2?cbeFvYk5x~f0+B)(kmCE,FH88b#9i~(~L`I2]q>O[9:4,o_C3QOTKu].$Kc^*h4YmUht]RuKO&D<%X
52TMc~bDt(lW'5H-Y.)eM:]wr0x/DnOW:p+hY@);4hsGF:((CKqstQv`DG7/r>S=gy6>2)U4o4IvjL1R[O>muV<Dwgoz_V'3Y*&6
;_e`*MmP&;K,SZD`pp85l)a9<w`w<%'UL.J3h+C1zr4hu13]@&Ml.on%jYL0L&E=S5JSd?&JqJrAG_(x:nhYkg<a=tLp1=iv88'H
+(~zexEvzDyQq&RK7BO[m7*<WWoy3J(5h<R=B-:gmygS66g]MmY~ee5zog'6Ar.wwKb)._lv][*h+UJycP$fM:q@TOW[kOD6IuOf
Z%H;:#c+J:>B2uT<KMyD0`C5le*'N:WFc9;*rB>I83tfW1&;[Gj'])S_~P8`c2S+qRn0[fvaggL_&->4G5./KRo`<Vx3c&zAD/pd
b6>gx]:qbhO*I%;491~7UOq@%zT16A_Su?lS_?wU?A<wi%ePRKHqy8aiG;[l.j5--]G9S/BW$pCx8FL54AOrCO@b'1HG+zZ>(@eq
s)x_Ot97DpO)-~.>$NlIOq=2BePoY?:6J<HFyhKW;y-@)l~zD*'jg1:Zu''DFW+kOHjY<Jc~$~lx]N#cJh5]5rQT_@sbDwqNN-pA
m`FdYZsSY,8GMtU7%`Ki:t#gn-`zXbAd`smoNyh~sk5Y6a>'4(HO+BtY.M-]vY05Qs4>O+v8<5Z/Uzy4VuaJopeBFU~]~7ve0G`K
6iDMRm7&hn]]1]^;P6nuDwtlyAlOLs>nzFWf`sDNk,@-f~x'liGx/Nu[PTr`FV<oHA$9(4eT*ua$=Al~&(Q4s-~L3bcFin1oG2+R
cP_brk0^pE,eW5i/llZos1n;z-`(^;9Id[5D])1dYC8fLohczqPn)/7'8?jzwp11Ip(hM[g+Fer7I8uCLy?S*bGgTR[7*#k17.6Q
?lWKoh5B5g1`O6<&U;Vh:SF6s9T[I<C@5K2F+PV*edQqMP9*B/g+28mbI1L*_-',~?OMR#%Qw#`=cRHnJ%-ggisxAK]Xw$y*Imh_
P9AflT/eSB$eY'Z-i_1MmbSyR;>gDvP$&V=d&C&K+Kn'Iw)v1Z/8b0I(NW?WlUMCSob/z>IXO`l%b;WaZIs4H6~/*B&,^EZP]15J
)-.kag1V`])u>B/5$QOJ@0ScT'l/&763v'1dy5~~lUeb]Td_gF184__(%^//IQx=Ro':BILY@]YQnxG1N&4HTgwnimDx0JXx$(hK
F_J)vUA@'PY%f?47@eu.Qct)f1_AmKyyLRU2HXJRtkOM>;XdLs%b:%OP=j'Q<'hzEgopOok7*_cyN821niZf4v?wU5;&)w][K]bq
J#+Lk[#9folzbs~'N<4Hc$PW`w/RR>%SwskDnz/2SdBlTz@5XTR1U#JxyyBf_;qxxqZe4AyNQWm<XRfvJ=o/X7`:opFIEhZgvM&L
v-G`y3'sj?ug<^I%q7f=Ig7epY'K>v53sc<kRGg@T$$G9Y)(3JokdL[@8KtEq,-CE;i2T;SGcqEJ7LhogYn])0VUy_;;g7.[/LQ:
2%%RMis~nTJn%HL+VxM&ZE(M)W'tvZ<z59nI^NHP5t,22mwvw~4msDJwq<<r^c6UxJrn-LDL'LlcM&uz1Y[Pf=mZ`4nXS_UNw4g7
G$@<cvE1E,wkMq5yK-g<eu/Cd'G>:B.JF%m;IiF#tho>0;T%rbtR=qK?m~pkMMiwcnfuR<cdSqDo=HcybXu/M(TdZ:;HsQnkz;qm
%-a-[<Md_:PUd6I$SblulRdPWB^Ux64Bw`jO;#0eeR$i`[VG*[wF#to&?FU@AU@n=V63_Ysth(IDNS=Km*HqJH)8o4M6MqI6isng
KQz5K;TNvCeX[7x+vK4~u-S`<;=KxAYY[VoU)9;W<bge9'J)/^jS~4u14?o[8Tkr[?z1.9e(w07DWB.9z5<#`p)R^?ddvS=[[(xf
RmD@elzeKou1j?$A;isi%t6O#m[Jf$KA,FkElXD9B?hiDZw0HD3Q9&q&'q>s0XlaINp%kMOTL/_l0Haty0N=7U1GXi3FP9:H)m/(
;A8L#4]w#,exfj=<tMWsowZo5Y2_]ZtxXqR+r`y7.=S4ZwZ$,Zm-H&R,6dfH)(&7nU9^2YTM7rSeiuKWrw9_1Q^cZkeIVfcr8/sG
jQ'g&WRm<mc3&gqXXPLdgf1ve[NW+)$/)Ypiz>=HH$?9DJ'N>$y#lT?MGJk[705td+w-#j6%]P1UK;v%ls5/ByW?sId~J^)n3x@:
/~.=[2?bD>EWNxDQ$vYe~-92?h]J3=J[HMXUR)bQ0?;rfm;[]I*6gBG(YN2_[J.sM]4ST;B2~zbv6f(1_7vP&/Cl+Fv;-<F8%t^N
55dW*mBp619,-I^=FCb_4E9*oO[%0tdvsC<L3Yi>W7;g4q[qc`mrA3kO,B~qO.JUdD1zfRKthd`8oLVIg/)~/X:FUhT+Je`>>w`_
L2uwnhv5zY`h&bFuYpNQHrAI)$II'3-V^E~pAp+ITasVBhS76sboLd?T'Q6U+hBQEA(Gt[ikf+WKfVNys~R#NgaGaxJV0&y%Y=fG
S>T:c=p1svl&.DagrUQ*qh6<qEN/t`G/fw_[V~sL=ak~;b$qO`(BF$Dg@SD'9WMohH5?~(gh?ub$UX~fV@(8iEyUSCs]H.i9NVLD
>+bI5DwA?j3OQP(4*0~e&JXwW&1+TMP#.o8$Jx%NzQWh9uXW[V&](OXItcN2Hz_=]z$$;Vo-*Mu[cV=hY]@b&:^SZizkWGYKG@gB
Z:GpgXjYg`#Q&VE>jNES:N^x%obAMO^S.yj^8WN4hv'?'AOR>L:bkb7r4JCY^/a3C5um:8_AI8cpQ<=emAkuczsKl[.;a8f=CO#2
Q~ho%iv>0>0l&xy.Fn?#gzp]f+r5/uaRM;aNXTOWvny>B6uS*LWg^*45WlOrT7ia6pzRuI,YwoYWuZ4$<>rw18@15e8_`qY/Hk-J
G.,C<L=j5D&&b911Q>iIxs8K1;,teZ2:pIn<*<bxUbGL$vyhWW1UG?V0@gw%<'eD&Dx*hTv)IF^Un#ooj~%snQxxC72JH>ufT]Cd
4-]H/JWoM+S59Bi;H&dX-*`N]gWZ_6<`h7dTc;;yTT1d~pgoNx'#p1@2t]Z0@p>BHz>(/+Pn#RN6/(fo<^2'dJ_8^[PbiVNP8I'a
_~^-@FT1QWT_)e[yFZ:EC;-$.&n&6X:*gCqOAGyRma@l8l~OUf+b1t-^iK.g&<#@Q&xruyS`):GT?uZIOnV*lKFh*owFQ$a~ieJG
jX,?~NVPG^iYm(K[(~wh_s_[8oEU6F'~xa*7Ril@dgU)nGnZPA;[R27U'.c8$+fZF1r3[ZkY+8cw?.?*?D=JL8xykUV0oP`r,Z#?
Vb#v_o-x4-R2FW=Jq''hVEcc%>RhZ3XYTu>T'3M0o#q[vOl:8;+6d)mx<EtAODx`3,>3gE=9Rd9uF(c64'ISiM67-a+]AU`kh[wJ
1Y)5U%FTVmG?RI8+pV7lL+*T@6FMXZnnub?HWM*7hf';rg_6@Y#Q0>O/P,rb;z:hHJzIe];9D<n]C:WD9FEEzhxfR-?L<?g3_M%C
K&#xx]^TrIS[$?G*b'hf~ffe5~gYEUiT@M]LpY)[-?Gy7BpnZy0ffCYK1DED=Rv/sK7>zN+2cLb<_tRb8](346/cTn^xD:A9lICY
tLp7j,bgm0Mc11e+qpFp6n4+)??YIH9'3Eh8c%:c=c::G,8zTaNKoQ2Ump`3GE^KLtRCLqfO:'`(gW-0fi^m=YGa(QF(4O38Ao-K
Ii)pRP>P]M`27yo;ck2kAyQ0'xL5//>XSPS'n3[f8>eHfLxYaKMl]oq4OkNi.y;~N`TB~~#T;;W4m#whz?l^OW)k~rR=Is_zN[Aq
zjgd?jJS@.Ijtu%TGdQ2XjWNd3NS&Wfuc>z5awj=)xkXLvX3Q`z3r8qjqPaX#/gvRXWf22^?y-V-kIyk'^WMoqs48w%r6h.yB7F;
yi-A'bqb]ZIeFt.E4'9vmY4.`&u@wXgkG6my,cBm>KlSZlBj@a;20VyYJNe:TT5veUvJ.T5K,>Hf,83q3v<HE3`(_ji=,w592oo,
.t)yrWi^z-y[z'L$5,tLv*a27kS*jw.0jEkWlaCi]PgQX3(#u~Ji`E5Vp&,c>_&DSDN,dUr^8K;.#0FsbH9PS6(R>J;*w2><;14c
c0O'fu[1iFbi>mnLw^~;LbM>aAqZFe;[e]0`:@4^Eo4FS5i9LQ;EPbOkRj7V0T0W(m5FP4.qO%Op8N^qv*3&[6JfmC9vHZi8`>,'
[E4oVcwtVQ=9#$43[KwL2c4d=ptUz;k3=*qIm@B(W9:STMXYvxuoy?'`g]:jF5+?~w,?=yCfMssOJuCtZ,Oj?t.hY+6E;Z.0D%Iv
`)fq~-27[<@z;>EVWLR4TjpwJ0D,?o*XH[,(~-T;Q$hhnN6~.nNZ_66>M4[Mx*XxjM5],k*PFW8ZNdOaqF071Dw80Rp$ph=uZV<r
<';<yIFI,zsp+8tDKd#-*Wc%^%xo`0[KO2HRO_snTeU7d]Dja4Hm1y5-*B47nH<Roz5]OiU=)8s/91SWA:dom31u%V<$bxJzSl%E
ofrYrLMEOnKGPX'F+@^8mP@<KIw^0dpBz+%)ZUc?[&tDQ<7oKYzZSX[T%%D09e5R@Q+k+BD<IF(Eh0X'yZYX<<C4u*Q-Y~1vm/r[
m:g_>yQqn0?Io]q@21]DCZP:6N<mte?6?7dWAGg,XtWFH+mYt=x&<`^xh6[OV^7V5ovW1d$O]4G,=Y6('n4LQ4efh&k^@GqfsWB4
V5K`Uz7-imrvA&hx:%mj,5D8[fT:YTY?VaoN_D9m$Y6;@1ei]V5+2?#5JH<0p%)Ue/j;Ef`/<ubqe096R0KT;P(bG3S7`qz`mevY
oP7yH-p'95sL[SX._/t[lgQmur>d#Eaq.CVg,]dLZJ+~/0wg&3s5-(FLt9J1ub0hpvf/[?7/vgj(Km6aHx+Y(2]@4i(~'amaXl&u
]4=>cO#v#j5.K$^[3oExH)]DxMZ[9=S9nD1-4LJh)7$Gq@gWLUm,$OIvyco-5XSv4'B^?1nZ[j%OyMq0B<OmlaYe,Kconi3_rpRV
)#_~WGfkR^mo[iSM?k'^)rcf-jZNd%#qF62K&O-_fWRPUgid:aN<mR9a`m?X-t.zG7@>8<5q8Z)Q4=91J]S3r$AZHBO4s1pUds/%
f&WO~FSJT-s<Y0'gJ@P^/KEDn-6jK`FF7?A9^mbXuN]'5':_NjFsw^o,u>o8stjFP(GS*5:>+EHsF^d9A%F[DgLB3R98Q)X</>(O
uV;iR8eJ98-O,i%QYZfd'E9L.=pwCcE'P.q+D%g<'zq:YD)^,P@4I:`mPU$Z*R7vM.t9rz_.MDl,Yf9VJ<_agy#mhW[sG&_]?OWW
:a'E*e9#mkpyaXlZY+Mdl;hE?nh;vRjE##>YG1]*u.+l%:i.6xTw-PK=)iC.2;@gHG<sp+F1gx@3?MFKImYTchiH_wlxO~Y/zS2Q
2pH7=ZB+3pZS2quz'O03gvP~BYuIsC[U[gatM>F@.c[+=DF8W1RW_U@b<YHYi8Ib/krCuM1>uJ0wwk?cyp_:$G6,Y7*Y1(lQ3k-Q
<+kS1C#P`)o:Ip)TUTA:Mif2[KQz-_#'u5nw?.;Y$Ob6t=qO`k<m=V:#Z-K(=67u>oY_X4hC>TuxOI/8a_vKN(tGr_FO8Z4E=>TL
o^pqiqlnI72pn+KoJFwe4y>&9P0S=g~#@#LNfD:eW'gFTEoG'R8~d4%cYf&.7WOSVo?[IXj5S?1hcVQsW&MKc$9JLKi*u~Pf6)ZH
oNrO2r=EyZ@2+&CTq~G2w$IU:m#x<<mP,<_P^[s7d$`Hz$;ll5u&Y;T-x^uR~aw8Z3a(cUi<]ot#[LjG2qbhSyGSn2g1M~EkyR4&
6q>I;<.KV.98y'PauCW#u&g&Pi7HWO'+=I0-rkyYpOhc:xzM@+4M]pylk2sl>t@`_i/5OBM=Q<IT&Kop^ZW3wzWHE9FjDo,T-`kG
]5gWo1[M9),OkW,nG(mDst8o`Mm,WQh;:l)~way4r3)G3.^rEI/]F&^]3/s2Z#ZB'(N%&w=dw5q/CpRn=o?ucx0^oGB&/drX%:&*
OZk''@$faZ<dZI<1eGqAy7iNyYkSsb@VnOLJf,H4axd4s5Zayc'0&QQ6(XtRW([*N/Fjmp$M?1ITX4j1FrCwF.TcB)C6=HkI6i*M
`9k4*B=zQIsT/QUI3JDOk/s#iCmRK`'x~G*I#6-~g9w-S4C0l.b~'3Xb8@q:CyG$j:E~Le/%I3T2j_M@8pH*gm6/@MgW~%fqdsNt
+y:*[h1X%jozk'JDg[R2]M~l/r3*;@C%1rdXDgqkXV0nshu@oo@*W(Ea5K9BNlR'w@CL7Gu$sibUVXDrTr[#gsv>)l*VHhQ`(q3o
s5*YxQ`D5d*G[4O&+/xp%C?ItP[u8'4jPfRmRQJD/-zkS^&BAo[To.4v36j#WD*:H3eSX3%QYVwse~msOOSMx;n+qJ'_RfbFF5^`
<QDmz]awA~P0]]O%z~tQCBa8m?k%D`:#aB:Jf_XF]RcgHx(k]Sg&>O%eP4@A3YEG95dQro#CS<2C8`h0]Rqp6),,VQy$UiEryF^R
Iv$oK]4fQsLs~@B*;RyW6+7IM?r_G=+;.umSrRh`#_10Z.#eT#ZvQV-`/$9~`@r?Uni;,gQa/D-`R,ooTR[cIM,y^:64J3DIXY-z
``gt'JEtl.MZ1P-#fu:_6mRKiue/(]meZC<_VA6y.67m/A1H#;[z6q)CgWuu5ACk.m5_$yDg^cR4#~N5/m]?^<`9(:X?N4AzV&fe
FX,=NipQIogW=XW5K6e63%WutjmAT&;S5X7:'^[+D5$/:=1Ui#6/Z4pA8&]_FBG'(f3V>4T<4T<^bQ8V-@5*.l&YMKUY0wPwICpi
<4q>XA^.EJYeEEOrvwNw*;Zr.yqrFwLfv@@Z]-vuUyv_.lYd6WKx%cixuGv1gm;>YeoVz$<qh4bh8g/.O.B:.jWy^[sLM9QWd.YB
C(x1DRgA2AcLw,_`>0p'Srl^0g'p$I*xRGmKZ3cl<Q%:cn+<h152RbKT+i(Bblb$%5Xd$b(MjjJON,Z#&g<%_,0+jmQVmALysM/_
6,cKUPe-y(([gEMERUn+/>><:JiWC*f[Nzv&?k[^OtoIsI*vNs]u/Z-tv^>`I=3aokBJZ;cg~tB$W-=F0Q&-SN~CDoToQFAq(E>W
RJd~CqHB&f]9@.cOM_WAo_-/%inwLDzsLy-v0?A+SwA7Jw'sJsW10`VmeIFe_;p2Q?&i//t]G=mu,3g=Q9.lz`)pd=3'vB$cnMu>
w]Unz0R&XNSlq9Ph><5[$f5_LXR)8g~F,Zj$I&s]~b>mwwKR2:M>h`l#Cbje??-o&Az>)ru?yb1TlSoXE6etY-zp[]<(b0_D_q_T
7~>vip:(Kb3~w?=``abk%u+dLUdtqV*9t)y/dL9#r=g^Zdpmi=UWr'r&MnUvGRRWuaH~G1,>_*&o'`ZFRIMJ)Bf)Cp=TPub7a['j
-w%_W;c;6q[v[c312GSn;O.qg[o_._WqWu2#(z0:]QvVXY=e[xg,5EJy~yGk6pR0PkAzJU'<*D[Z+mf,FFY1[kt5sRwtE*f@<l;@
^nwD^fY/h3wTluC[Y5a3Ju2ds?$NNj(eI0ke8`-#j`>>3guHqC%Z&gX9TR7RGgbf9/~6un7UDg@8zU6B;UsS~H~yxt;nhx(`h=<e
YnDuxg@Yh]-RJ)K/$8oJEeBo1sf_*jn[o[AVN<-oZM#[Ob~Bt+Wpnh/4G/)8H>1J#t./`68E_T)#1(H)[gEz:nU7IE6D4`^p.mHg
nqbShz<e3KeP.KLevWo9$T*3D?E=.3^n1@[6u+N)sbB3+MPeC44-4tT-zfw:RmTm?25(&)GnPXw6b61p_*@fDQK_yfqG$+VZBmFi
z`06EJ0?3gm,+_('i~uenC?h_VT5$o:ycpBa:FRs<]YraHe^S-FM%p948diZfEs#hAwk8#G8ke%St+?#HK1~3K#vRkK%)J4,#YqI
4IS-MvK:z^PC4v'~F4@P@LcsJsB_UFy>X7mbmud'tA2L60-h,&*W'xaIEoipayA<6I<2nV_xlMz2Cc-#HKuJ%#>-a7mbG/ts-_=-
Og0_UY+oREj>yhtq#=#==.$[~Pn*V7G2hEANeuFLc@fQ;S6[d@'y]H[`mEnub`w.M0DqH858-.+,QUFQo>tCUV7=h@oFz7YAlz,s
_s-?vzbc`EATGV8LOi>7H8,Y9pE:.*A7Oi,F?r11cmjKzb2?@:s'w`6>5[0+AHlqQ7'A<mLjUS-+oJQF#rDidm'M&s_>M_tUR(Cv
mbIMH7iE#xgsA,?4Pf3Pr&mE;To*]2MY)tz%pmA23VsOa9X8U4O/5'R2T9;'^qUvtZrwSmjJ.Q6@x<OQpGOOq79wo6Z49u6jx:/0
ONQRWa)oLD(;Pg$`5c]]iF(TWeA7OGa+m*3UEd).Uznvs//nprBMZDhIQ6sK&qLi.4<<[@jN%2o=iR'_@*?HPOsBkJg6#&f&BhOh
i4WKgk3_0gWytEt'o:wZ2122wD^>CMKm5I3hjLq6E@N-9PNug]s4k4J-#kE]r&f=tCTGfP$a]h0M3R4^iN6*[2TF8^6'IF[%n=#g
z_hg;;&YHfAbxL8:>G^E7:mPE5Ea%Kg+05m=bU:woB[gSa*6/9bVMBDb-5R:?Y>)%j8?7SclPVjH$Mw2/UFN4dit9edH61B)obM~
Yx=Z*r/qMor6s/4'xG[H1BQwO._W5-^EoGzE+=/3l[JH4qX_54?VF^ZtBY_bOEF;:+HFl/dD$6eba3`=BYkPHj_<7lKLGC~xV^oA
waW,+gZz]VwXTJX4'cx#zs:;wxKkShJJBBHi9PO5Sor?h:~yT*j6P>(O^*t=$e'b:(/C~U0%*G9&=Rnp=c<HAzLwEjNeRL%&//9?
Av?81>[+~>S^~d?ykB~ov.&p9v:9PXpTYt@O)IY+;90zu*_N0oh6f+?HRE#`3W9x;V,Zgb$+ygIf?b[WJ;h:3f*QJJ1$KF,lTb,s
8np*@GFzWk_cFk(toyowvekYg<>$J.XUK]XTDJ^U%:%8]+H4FzmJx@1&pz~3p~Mq>mDF)c+J:RS2vxYfJIqUocM4$hF~<$xQWOre
V0#]*nY()&nmN^,08dNp,1L:r-fVeS1L=i#'CE5rpm2(_[M_O'2B*&JDOw[&*>L*YE?WXi~5xpSd3z'n(Y%7[ED]vDMR:(,[P*w@
h]B*N`QAN%9LsbC,Ys2z$LLqBrL@qDn_w&~hDh:N5,S3G]-h`4H@Z?vu;R)LXu<FgO#1Y7K+c~YE>WwWvB;~=d`trQ%:3Buk*Jsh
qsUmAWtxO>#;Gk-X^KF#2+&&q1ke-VnD'@pK-*MbK*u#P<Va'ay`i@+aEC_lWM-a9xTzk#:PYwI[B2LYl<,S@2~G1t*0oioD'^'%
$Hb02^VrAJ4OqnMx9M1SBBE.>-A*kc12oIEHfP-Vy,qcuv;36zEgjl~#D6b~hTM'Z-JG(a_u@]'4#p/#-Tgqio@[GL7pQJG/el<g
Nbh~WaLe`&Q5y:%cA.A#uX%N+3X<AQEE4dlfE'T8w8AVG%TE9.q/8?@&N,mY`3Vcv0%x/3K'UX)f,OKEx*2SbVQ'uL6WOV/aL8OP
GQuTD)A[<OT97BQ/$Bd9;^CGc0+A(HLG-f]-`cQ9RGH6#PtxiPMO;s5s^dv9d8Ev`g$:E#^rAHCWoq;c4/kXNQ<X=1K,<>TQis-[
/s7d3MLL#7zW^-Xy,HZx`M0iC*`^vzj#c'>p&es@*zzUoa]g'=h04n/m<kbJZV;]XUKNF#)&WV_G5DU1^tUlkP1Tl'gZ+M71oeUO
V%/CtQJBOh>t9H]H;DOj$lZj#5Oj-CzY2%f+N16b8#o[<KY7h0vWTGNQE?F[DwP:OSIlpv9aB?j$.ca?C8k9#K#JDv$eD^A*9)Vw
@=Gyzho-y<8x&3:Dits]y.NsXygw;>VP?3O'=QCT)1q3nDs(%0j,*$YyaTzL>xDi>7_QgJHVvsr^YzRF(IGI'4f~][qqu#2yZW8M
r%IK*(tz(9@y+yg-viEZX-PhNzhI~Jc3Z8/urOX&GE1j:dCOp7PvT$`q1Pb4lBtc$,47@yUUMJdr/'j_0Jh%7Zsy44ON:$tCmGx`
%y7i`uu_Y(4ea-gP7:B~c*MgP3>bJ3(KZvImCewX1l@wb2zcy+fUZ@j`o)utc%dV7qg`5XpG9E/mX/S1#RF/4/,*Z4?34=uUX?>6
_(&SXf_=<f2lx&I/(US?701@;UqTHRNqIPvT@E1GM)<ko*1@BT7h-nVqd7]bR&5HYUG]F[.spBI*K2'@;ADJP70@0h>G.xYf=vU(
*'`Aj=e;?JBa:U8',GtHrVC[uDD4;_A6A4TX5M.m?s$45.nIVEw1,BbUcH&^B[6H%n3RP8e~AUSwZV%;zqQsvF(hBZTFp>(4/$gQ
01_y(4_rl(y'7V't>*L4fN48fOEGb-19^&.ow/U`Qs0YYevz29$7fN=77Y-l9Oe/8Ra5WF(-Y-/G3Wwz~RM-I=R&HqXFJk6jL#:w
?oS'abQH^mg^;%ZM80qnydKvM-[G*`b+p.i?Fhsbb-D6/2ms>R<FH+>Sj:8gQC[0jg3.Nf0l/ldwv<FYbE/xNp(A`[+%QJ-2^ysT
FMR@/&6$9&)u.z&>9#`8F21I/e8<HP$R*Jo;=3uI^>6AxYn^LCy<=xJOqve/71yQvVc/qtj,&;%SPsP?G4pLdaNXx@rh%uz$s0<k
d[=m<3s8sh#f<O+Ffy`2n1MRi#vzRYME-x,^,D5=<81o`FW:aTMW^o%h-oIJ(5'OEO(S9&DaQ70eQG<pY~+R:v,NB~dVkW',/S/e
.%5v*Yu'mBuVbo$sCQ;/.dP'HgWtj'kZMR_WG;Gi=5&Y^QWht@oYCo(8aC91=QiLS6uMR8ji?ovCa0G[A<pcLdC@epv/hatq_Lxb
d)V:Um2GS)#jb(22zob(7I<b:7OmKBnBwc`t'sagCD.l=v9XNTEf%C=0wp(:002mIOwSduVB~U3q=^<~K'y>/ih=c?9?%>pcXjI3
x5hNTcWUz<^Fpo_>-GkfqN>1KCXU@Bi*m`RxTxXM^.-qbt*peG7W#UPR.[0YWkdHbX([z1hX?2..x#%DsOOE9Jl;QW4aOk?+W>T=
[)9S;M(VBD<o]%alZ&ssh(V,/_3JL^nY'U]Kj`Ko4iz8HI83BAj`)@m>PdB<oU?U#H,nR7-OGG#[f66'if-4#Tp5_JGBm#&?ew@s
Nu,$.x#T/B.:knw'$KL/n6JIe8MPwS$M5BuP#@NOqKK,fpaA@my7,6owjYs1o&W=t##@]ggkh#Kctv]%.rQR2rKk&;drFj/).`X~
6Ph53ZibyI;2?h^TS<PL>56+u`H-qkm42Xw)3/[&XI.hh8--b6Y@RX60[K$g[_#3M~_yqr@NVSbq]E1,,Z;;072rDSt4:_AOqxd?
[Tf:+Zaq3A,L47'JJUvZlO8*bOn9)GIj8w>is'M6)*yh&96M2tRnB70k~G$mAy/cKY?Ky;0zhF;8o][WnT(sg6e964*OyE1E#.[~
>l-BXQSFAA+4sSADHivMbKq/xFG7]3$1eMqx;dPJO<e%U52%JWLCgU^GNdPS-oAY?Wx,UM2h&1m4f)[BMx2DL_&*#4N^R5KJy$gh
]+A,DrO7eG*['l)vzc~Lj.C)=x&V@*'Hk.ZW>py,$<4ehlcLweX*J%6e<&vS+z9LaluYb]N'rWHC3isH+]#`LA~2u%uR*oJ;4/nw
34Xhsh5%wYYC@GMY-PQHEQk@NoCo`BZ:/9_WAr+;GjTHZ4-SVo>pz)vEp/Ft*aRnRLkGo8&bSr+>ojgF=KW4.,GwLD7r:NY#o:%Y
5t]fl$vw2?*uHrOx*yTl[]VBSFDk~It%Z,2)PEq%z/*~o?RM2(5u2#Geuh]3?1uIYZ_)_co7bC-O:1v4SMP'H2WHpiAbx((hF=Yu
a4VlhGrnv55sBI?ot(WP>(BRvCqT0q$lSp;qQoMNr)~%8OiScrCCerl]kNT-O[XHsI)QjvWkWX)5fx#PNYU9Mf])=9<&bq'~~HRp
_U^;C=z#aF',v-dG%A2J;J6+Kt@(UUeXc@>HAA;vP'R3;J$/9_Yglm>RGY^5QM=&MM0hcvno7^zoS5c>S~J`@zJCLhLzy;*,YQMT
Op4*Bp&,LOjQ%TS~.aTpT02TA@F)sc$(WT,WOZK*M6Qg/79&kYd;N#X8iKbleaHxa8@y^P7^e+<IGOg$CEw=G`E,#qx37%.3DgmA
U7&][Hby7N;IkIjJG:VAxljNzRnd3l`JAn?%8%qy?;<:a%X9+M7w4Kdom5hGr[qLyt4[<+H/>[<O6(T~8@r$$oI*VS@?1?9p/XFm
-vckrvHYcNN7;rg41.BV=&(Rt[1P&>p^8D$n:D5=+?zDvJ>EU3aqcc^h6v''%2FWcXw+1_V]6fX3U&6wt#Do@MLxp_g:nP-/zc.Z
N6Xbn3;[QT2,]r-Ymi-]O1:oju&U2Mg6J-j4oo:rWE)p=*X[jA^3f*(XX(Qs>=:+PUMZtDk1Ii(Dy;ljtgH$1Tr$uY]KyHl'Yqe)
&WR7?Y/C4L_TdFYV2te.*#=Hv=V._?MwZ*NWyJmP;8bq03<t3::Nw[eiI`5K&u.Z^&GB3;KoL4]h$6.5,?'k1DR4lb*.<-bI$Sl(
38P9YBZ:gn%M6E:7cz0=Y@>lF#]9nC<Qr>I8^b_b+$v8KP/qe'4,Wp03e/'L0bGtb4nLF=#,g2Nt4H<QkAmIV&%rNxj9#1<0%slP
osYL6SbfJKqATQ~WrrBJmHPR=ohnfbkmHZpiCQ,d3USI7')rZ_yZLN+WbW:bzEUJr?(5on]w~/IS4JlZ6_2X<>cZi4&/@YDUL98I
]/u9r>ci4pV.NAfp%ko^3)OK5vu%@`m^]'azR`QtDZoXvZr.cveZqpldo0VK_[5E9~Z~rmGf=^82=~bxCfBd/)9yS<m'Y~wLtnjV
taR1`j8=mBzX2iuJWq[ECVv_l[(=c7J]mPRDOkYH]tCeF^w`e~p8Q<F@48[Q~tD#,ua5J?-#9:v@%14'87Kji:$b~PzB-:8L8`=@
$KB/KeK/&IM&QvUNQKr]/7M[(]IL/GG-)pNp1jV&-(+W)otkf?U6Q(4W'kd;5+G/b+&M26M]@?/AVTC^)IS2uCwf-~[y:mDD.iNk
RC;v@((=ao4qb0Q^8q#)*9xE>>HYs6fb_O)c8`ZD'^do'J95&F7Z,e5)pWT6_Mg9QNj_xzTs%z$-W<c7nrf[)nU;?quB~ViJ,rx$
X)2au#z=.B97p7`Fo64]So[__le_N],khx;AMXC3-kx>>j%4y>yA:#w3:V0w1zBGicCzh'_Sf'%N`'^Pmp$F(NW>'U^mo5pGf2)~
NjKyD,n=CVa&e/1?#<)Z8cRJ1loi6<zKQ?`gOfZV*p&GF.+hW+%wi=tRb2yyzxO7&3-0;TmN$f8sJ>Z&Y<S1Q6wmVJ7xmm55?'tq
k>AOM2btlX]aiXBdB4[mx?M_fb6YTH8mE~ZHm*pOXklXDixV#oidXIvistfrJx,GIDud2]Wr^W;.HyqG41p/7;.'(kTR_FA;2kQ6
Zij.;sioK_X[;czkUT5YTUlP4`N6usM^;OS%3D1g`F:w*'Xz5VHFARum<xvw~>6JM<9_Pg2i1N&kEVgRohN2.wp7uwXXs_Zb8M[9
(jd0KcRv79#_FB)Jq[a;O[<>c%WEmu+2z1<g_L&3tA`'%OPu&Q^qS^bz&JR60^.nYKb.)Rf_,f4)HAWWVuQlo2@FY>>AW$Q&2$-~
y.(86c[EfdE$Uc.O?Bk0k)qN2$6g=+TA.R6/~7yj?nOXS:vq[Gi&0[^11>>3DA?fm_Eg%Y6dp_*=YCmTDk$yuI'(0oyM@~KSdA+)
bS]rV.,tYu/^lUZR3&-DE~^8hZ.oR0U]tZ:T%/,MjKKn$YOw-HdN_iR@-WuRl$~LXtZM*qFURRA[dg1MHfjM&R,_F_yOBWyg(U7P
0bDEZgLH8Y5%$wK1k1BhfOqW~?Uv&wF$Z+c<?:Ub8/3qN'V/wXWD2V$c%pAA'%wrw>5Q.xp`t^MM2)ckiS6gRE^rtJ;F$]+KKxBx
loI:OH)/1IUY%hlL8S1$9#1yaXUwkdFq#Mn6[N'nVc%w;,7ngwtsf.Ufc0+Ogj5IXD>6F%Xo%trGC8=F9V2pL&DW=?6j'7i*M?Fl
Ci:cZX%^ZJlZ"

def filesOf : List String → List (String × String)
  | path :: text :: rest => (path, text) :: filesOf rest
  | _ => []

def files : List (String × String) :=
  let digits := packed.toList.filter (· ≠ '\n')
  let number := digits.foldl (fun n c => base * n + digit c) 0
  let done := unpack (.replicate 394 1) (.replicate 17 1) #[] 8778 number
  filesOf ((String.ofList done.toList).splitOn ";")

def tree : FileTree :=
  files.foldl (fun t (path, text) => t.plant (Path.parts path) (.file (.text text))) (.empty "/")

def names : List String :=
  tree.names []

end QuantumNode.Template
